import Mathlib.Tactic

/-!
# Windows of memories

A memory may have several spaces.  An object is seen through a window: the place in a space where
the object starts.  Windows may share places.

* `Window.get`, `Window.put` — reading and writing through a window.
* `SamePlace` — when two windows show one place.
* `SameSharing` — two layouts of the same objects in which the same bytes are shared.
* `Agree.put` — what is written to both layouts is seen in both.
-/

namespace Windows

/-- The place where an object starts. -/
structure Window (Space : Type*) where
  space : Space
  base : Nat
deriving DecidableEq, Repr

variable {Space Space' Object Value : Type*}

/-- The value at a position of the object. -/
def Window.get (window : Window Space) (mem : Space → Nat → Value) (pos : Nat) : Value :=
  mem window.space (window.base + pos)

/-- The memory with values put at the positions from `pos` on. -/
def Window.put [DecidableEq Space] (window : Window Space) (mem : Space → Nat → Value)
    (pos count : Nat) (values : Nat → Value) : Space → Nat → Value :=
  Function.update mem window.space fun place =>
    if window.base + pos ≤ place ∧ place < window.base + pos + count then
      values (place - (window.base + pos))
    else mem window.space place

/-- Two windows show one place. -/
def SamePlace (window : Window Space) (pos : Nat) (other : Window Space) (pos' : Nat) : Prop :=
  window.space = other.space ∧ window.base + pos = other.base + pos'

section

variable [DecidableEq Space] {window other : Window Space} {mem : Space → Nat → Value}
variable {pos count : Nat} {values : Nat → Value}

/-- What has been put is seen at its place. -/
theorem get_put_of_same {k pos' : Nat} (hk : k < count)
    (hsame : SamePlace window (pos + k) other pos') :
    other.get (window.put mem pos count values) pos' = values k := by
  obtain ⟨hspace, hplace⟩ := hsame
  unfold Window.get Window.put
  rw [← hspace, Function.update_self, ← hplace, if_pos (by omega)]
  congr 1
  omega

/-- The other places stay. -/
theorem get_put_of_ne {pos' : Nat}
    (hne : ∀ k < count, ¬ SamePlace window (pos + k) other pos') :
    other.get (window.put mem pos count values) pos' = other.get mem pos' := by
  unfold Window.get Window.put
  by_cases hspace : other.space = window.space
  · rw [hspace, Function.update_self, if_neg]
    rintro ⟨hle, hlt⟩
    refine hne (other.base + pos' - (window.base + pos)) (by omega) ⟨hspace.symm, ?_⟩
    omega
  · rw [Function.update_of_ne hspace]

/-- Through the same window, what has been put is seen at its positions. -/
theorem get_put_self {pos' : Nat} :
    window.get (window.put mem pos count values) pos' =
      if pos ≤ pos' ∧ pos' < pos + count then values (pos' - pos) else window.get mem pos' := by
  split_ifs with hinside
  · exact get_put_of_same (k := pos' - pos) (by omega) ⟨rfl, by omega⟩
  · refine get_put_of_ne fun k hk hsame => hinside ?_
    have hplace := hsame.2
    omega

theorem put_zero : window.put mem pos 0 values = mem := by
  unfold Window.put
  rw [Function.update_eq_self_iff]
  funext place
  rw [if_neg (by omega)]

end

/-! ### Two layouts -/

section

variable {size : Object → Nat} {layout : Object → Option (Window Space)}
variable {layout' : Object → Window Space'}

/-- The objects that have a window share the same bytes in both layouts. -/
def SameSharing (size : Object → Nat) (layout : Object → Option (Window Space))
    (layout' : Object → Window Space') : Prop :=
  ∀ a b window other, layout a = some window → layout b = some other →
    ∀ x < size a, ∀ y < size b,
      (SamePlace window x other y ↔ SamePlace (layout' a) x (layout' b) y)

/-- The objects that have a window show the same values in both layouts. -/
def Agree (size : Object → Nat) (layout : Object → Option (Window Space))
    (layout' : Object → Window Space') (mem : Space → Nat → Value)
    (mem' : Space' → Nat → Value) : Prop :=
  ∀ a window, layout a = some window → ∀ x < size a, window.get mem x = (layout' a).get mem' x

variable [DecidableEq Space] [DecidableEq Space']
variable {mem : Space → Nat → Value} {mem' : Space' → Nat → Value}

/-- **Writing.**  What is put in both memories through an object is seen through all of them. -/
theorem Agree.put (hagree : Agree size layout layout' mem mem')
    (hsharing : SameSharing size layout layout') {a : Object} {window : Window Space}
    (hwindow : layout a = some window) {pos count : Nat} (hfits : pos + count ≤ size a)
    {values values' : Nat → Value} (hvalues : ∀ k < count, values k = values' k) :
    Agree size layout layout' (window.put mem pos count values)
      ((layout' a).put mem' pos count values') := by
  intro b other hother y hy
  by_cases hwritten : ∃ k < count, SamePlace window (pos + k) other y
  · obtain ⟨k, hk, hsame⟩ := hwritten
    have hsame' := (hsharing a b window other hwindow hother (pos + k) (by omega) y hy).mp hsame
    rw [get_put_of_same hk hsame, get_put_of_same hk hsame']
    exact hvalues k hk
  · have hne : ∀ k < count, ¬ SamePlace window (pos + k) other y :=
      fun k hk hsame => hwritten ⟨k, hk, hsame⟩
    have hne' : ∀ k < count, ¬ SamePlace (layout' a) (pos + k) (layout' b) y := fun k hk hsame =>
      hne k hk ((hsharing a b window other hwindow hother (pos + k) (by omega) y hy).mpr hsame)
    rw [get_put_of_ne hne, get_put_of_ne hne']
    exact hagree b other hother y hy

end

end Windows
