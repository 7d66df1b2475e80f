import Mathlib.Data.List.Basic
import Mathlib.Tactic

/-!
# Serving a queue

A list is gone through from the front with a queue at hand.  A round may take entries out of the
queue, and it makes something out of the element of the list that it is at.

* `serve` — the rounds.
* `Covers` — an entry is still in the queue, or it has been put where it belongs.
* `serve_covers` — if every round covers the queue, all of them do.
* `serve_at` — what a round makes of its element out of entries of its queue is made of entries of
  the first one.
* `covers_eraseP` — a round that takes the first entry with a property.
* `serve_clears` — entries that an element looks for are gone afterwards, unless it looks for two.
-/

namespace ServedQueue

variable {E A B : Type*}

/-- The rounds; `none` is a round that is given up. -/
def serve (round : List E → A → Option (List E × B)) : List E → List A → Option (List E × List B)
  | queue, [] => some (queue, [])
  | queue, a :: l =>
      (round queue a).bind fun (queue, b) =>
        (serve round queue l).map fun (queue, l') => (queue, b :: l')

/-- The queue only gets shorter, and entries that have left it are `put` somewhere. -/
structure Covers (put : E → Prop) (queue queue' : List E) : Prop where
  sublist : queue'.Sublist queue
  left : ∀ e ∈ queue, e ∈ queue' ∨ put e

variable {put put' : E → Prop} {queue middle queue' : List E} {e : E}

theorem Covers.refl (queue : List E) : Covers put queue queue :=
  ⟨List.Sublist.refl queue, fun _ he => .inl he⟩

theorem Covers.mono (hcovers : Covers put queue queue') (himp : ∀ e, put e → put' e) :
    Covers put' queue queue' :=
  ⟨hcovers.sublist, fun e he => (hcovers.left e he).imp_right (himp e)⟩

theorem Covers.trans (hfirst : Covers put queue middle) (hsecond : Covers put middle queue') :
    Covers put queue queue' := by
  constructor
  · exact hsecond.sublist.trans hfirst.sublist
  · intro e he
    rcases hfirst.left e he with hmiddle | hput
    · exact hsecond.left e hmiddle
    · exact .inr hput

/-- **The first entry with a property is taken.** -/
theorem covers_eraseP {p : E → Bool} (hfind : queue.find? p = some e) (hput : put e) :
    Covers put queue (queue.eraseP p) := by
  obtain ⟨hp, front, back, rfl, hfront⟩ := List.find?_eq_some_iff_append.mp hfind
  have hnot : ∀ x ∈ front, ¬ p x = true := fun x hx => by simpa using hfront x hx
  constructor
  · exact List.eraseP_sublist
  · intro x hx
    rw [List.eraseP_append_right _ hnot, List.eraseP_cons_of_pos hp]
    rcases List.mem_append.mp hx with hx | hx
    · exact .inl (List.mem_append_left back hx)
    · rcases List.mem_cons.mp hx with rfl | hx
      · exact .inr hput
      · exact .inl (List.mem_append_right front hx)

/-- An entry that has stayed although it was looked for: there has been another one. -/
theorem exists_other_of_mem_eraseP {p : E → Bool} (hnodup : queue.Nodup)
    (he : e ∈ queue.eraseP p) (hp : p e = true) : ∃ e' ∈ queue, e' ≠ e ∧ p e' = true := by
  obtain ⟨first, front, back, hfront, hfirst, rfl, herase⟩ :=
    List.exists_of_eraseP (List.mem_of_mem_eraseP he) hp
  refine ⟨first, List.mem_append_right front List.mem_cons_self, ?_, hfirst⟩
  rintro rfl
  rw [herase] at he
  have hsplit := List.nodup_append.mp hnodup
  rcases List.mem_append.mp he with hin | hin
  · exact hfront first hin hp
  · exact (List.nodup_cons.mp hsplit.2.1).1 hin

section

variable {round : List E → A → Option (List E × B)} {l : List A} {l' : List B}

/-- The elements at one place of both lists. -/
def At (l : List A) (l' : List B) (holds : A → B → Prop) : Prop :=
  ∃ (i : Nat) (a : A) (b : B), l[i]? = some a ∧ l'[i]? = some b ∧ holds a b

theorem serve_length (hserve : serve round queue l = some (queue', l')) :
    l'.length = l.length := by
  induction l generalizing queue l' with
  | nil =>
      cases hserve
      rfl
  | cons a l ih =>
      obtain ⟨⟨middle, b⟩, -, hserve⟩ := Option.bind_eq_some_iff.mp hserve
      obtain ⟨⟨last, rest⟩, hrest, heq⟩ := Option.map_eq_some_iff.mp hserve
      cases heq
      rw [List.length_cons, List.length_cons, ih hrest]

/-- For every element, something has been made. -/
theorem exists_made {i : Nat} {a : A} (hserve : serve round queue l = some (queue', l'))
    (ha : l[i]? = some a) : ∃ b, l'[i]? = some b := by
  have hlt : i < l'.length := by
    rw [serve_length hserve]
    exact (List.getElem?_eq_some_iff.mp ha).1
  exact ⟨l'[i], List.getElem?_eq_getElem hlt⟩

/-- **All rounds cover the queue.** -/
theorem serve_covers (placed : A → B → E → Prop)
    (hround : ∀ a ∈ l, ∀ queue b queue', round queue a = some (queue', b) →
      Covers (placed a b) queue queue')
    (hserve : serve round queue l = some (queue', l')) :
    Covers (fun e => At l l' fun a b => placed a b e) queue queue' := by
  induction l generalizing queue l' with
  | nil =>
      cases hserve
      exact Covers.refl _
  | cons a l ih =>
      obtain ⟨⟨middle, b⟩, hfirst, hserve⟩ := Option.bind_eq_some_iff.mp hserve
      obtain ⟨⟨last, rest⟩, hrest, heq⟩ := Option.map_eq_some_iff.mp hserve
      cases heq
      rw [List.forall_mem_cons] at hround
      have hhead := hround.1 _ b middle hfirst
      have htail := ih hround.2 hrest
      refine (hhead.mono fun e he => ?_).trans (htail.mono fun e he => ?_)
      · exact ⟨0, a, b, rfl, rfl, he⟩
      · obtain ⟨i, x, y, hx, hy, hplaced⟩ := he
        exact ⟨i + 1, x, y, hx, hy, hplaced⟩

/-- **What a round makes of its element.**  What it says about its own queue must still be true of a
longer one. -/
theorem serve_at (made : List E → A → B → Prop)
    (hround : ∀ a ∈ l, ∀ queue b queue', round queue a = some (queue', b) →
      queue'.Sublist queue ∧ made queue a b)
    (hmono : ∀ queue queue' a b, queue'.Sublist queue → made queue' a b → made queue a b)
    (hserve : serve round queue l = some (queue', l')) :
    ∀ (i : Nat) (a : A) (b : B), l[i]? = some a → l'[i]? = some b → made queue a b := by
  induction l generalizing queue l' with
  | nil =>
      intro i a b ha
      cases ha
  | cons first l ih =>
      obtain ⟨⟨middle, made'⟩, hfirst, hserve⟩ := Option.bind_eq_some_iff.mp hserve
      obtain ⟨⟨last, rest⟩, hrest, heq⟩ := Option.map_eq_some_iff.mp hserve
      cases heq
      rw [List.forall_mem_cons] at hround
      obtain ⟨hsublist, hmade⟩ := hround.1 _ made' middle hfirst
      intro i a b ha hb
      cases i with
      | zero =>
          cases ha
          cases hb
          exact hmade
      | succ i => exact hmono _ middle a b hsublist (ih hround.2 hrest i a b ha hb)

/-- **Entries that are looked for are gone.** -/
theorem serve_clears (finds : A → E → Prop)
    (hround : ∀ a ∈ l, ∀ queue b queue', queue.Nodup → round queue a = some (queue', b) →
      queue'.Sublist queue ∧
        ∀ e ∈ queue', finds a e → ∃ e' ∈ queue, e' ≠ e ∧ finds a e')
    (hnodup : queue.Nodup) (hserve : serve round queue l = some (queue', l')) :
    queue'.Sublist queue ∧
      ∀ a ∈ l, ∀ e ∈ queue', finds a e → ∃ e' ∈ queue, e' ≠ e ∧ finds a e' := by
  induction l generalizing queue l' with
  | nil =>
      cases hserve
      exact ⟨List.Sublist.refl _, fun a ha => absurd ha List.not_mem_nil⟩
  | cons first l ih =>
      obtain ⟨⟨middle, b⟩, hfirst, hserve⟩ := Option.bind_eq_some_iff.mp hserve
      obtain ⟨⟨last, rest⟩, hrest, heq⟩ := Option.map_eq_some_iff.mp hserve
      cases heq
      rw [List.forall_mem_cons] at hround
      obtain ⟨hsub, hclears⟩ := hround.1 _ b middle hnodup hfirst
      obtain ⟨hsub', hclears'⟩ := ih hround.2 (hnodup.sublist hsub) hrest
      refine ⟨hsub'.trans hsub, List.forall_mem_cons.mpr ⟨?_, ?_⟩⟩
      · intro e he hfinds
        exact hclears e (hsub'.subset he) hfinds
      · intro a ha e he hfinds
        obtain ⟨e', he', hrest⟩ := hclears' a ha e he hfinds
        exact ⟨e', hsub.subset he', hrest⟩

/-- A run is not given up if no round is. -/
theorem serve_isSome
    (hround : ∀ a ∈ l, ∀ queue'', queue''.Sublist queue → (round queue'' a).isSome)
    (hsub : ∀ a ∈ l, ∀ queue b queue', round queue a = some (queue', b) → queue'.Sublist queue) :
    (serve round queue l).isSome := by
  induction l generalizing queue with
  | nil => rfl
  | cons first l ih =>
      rw [List.forall_mem_cons] at hround hsub
      obtain ⟨⟨middle, b⟩, hfirst⟩ :=
        Option.isSome_iff_exists.mp (hround.1 queue (List.Sublist.refl queue))
      have hmiddle := hsub.1 queue b middle hfirst
      have hrest : (serve round middle l).isSome :=
        ih (fun a ha queue'' hqueue => hround.2 a ha queue'' (hqueue.trans hmiddle)) hsub.2
      rw [serve, hfirst, Option.bind_some]
      show ((serve round middle l).map _).isSome = true
      rw [Option.isSome_map]
      exact hrest

end

end ServedQueue
