import Mathlib.Data.List.Perm.Basic
import Mathlib.Data.List.Sort
import Mathlib.Order.Basic

/-!
# Sorting

A sort puts the elements of a list in an order; those that the order does not tell apart may come
out in any way.  What a program does with the result must not depend on that.

* `Sorting` — a function that sorts.
* `Sorting.byKey` — one for every key.
* `Sorting.weaken` — a sort by an order sorts by every part of it.
-/

/-- A function that sorts lists by a strict order. -/
structure Sorting {A : Type*} (before : A → A → Prop) where
  sort : List A → List A
  perm : ∀ l, (sort l).Perm l
  sorted : ∀ l, (sort l).Pairwise fun a b => ¬ before b a

namespace Sorting

section

variable {A K : Type*} [LinearOrder K]

/-- An insertion sort by a key. -/
def byKey (key : A → K) : Sorting fun a b => key a < key b where
  sort := List.insertionSort fun a b => key a ≤ key b
  perm := fun l => List.perm_insertionSort _ l
  sorted := fun l => by
    have : Std.Total fun a b : A => key a ≤ key b := ⟨fun a b => le_total (key a) (key b)⟩
    have : IsTrans A fun a b : A => key a ≤ key b := ⟨fun _ _ _ => le_trans⟩
    exact (List.pairwise_insertionSort _ l).imp not_lt.mpr

end

/-- A sort by an order sorts by every part of it. -/
def weaken {A : Type*} {before part : A → A → Prop} (sorting : Sorting before)
    (hpart : ∀ a b, part a b → before a b) : Sorting part where
  sort := sorting.sort
  perm := sorting.perm
  sorted := fun l => (sorting.sorted l).imp fun h hba => h (hpart _ _ hba)

section

variable {A : Type*} {before : A → A → Prop} (sorting : Sorting before)

theorem mem_sort {a : A} {l : List A} : a ∈ sorting.sort l ↔ a ∈ l :=
  (sorting.perm l).mem_iff

theorem sort_eq_nil {l : List A} : sorting.sort l = [] ↔ l = [] := by
  rw [← List.length_eq_zero_iff, (sorting.perm l).length_eq, List.length_eq_zero_iff]

end

end Sorting
