import Mathlib.Tactic

/-!
# Binary search for a partition point

A predicate on indices that holds up to some point and nowhere behind it, and the
half-interval search for that point.

* `partitionPoint_spec` — what the search returns.
* `getElem?_lt_countP_iff` — in a list, the point is the number of elements in front of it.
-/

namespace PartitionPoint

/-- Half-interval search in `[first, last)`: `first` moves behind an index where
`below` holds, `last` moves to one where it does not.  The first argument bounds
the number of rounds. -/
def partitionPoint (below : Nat → Bool) : Nat → Nat → Nat → Nat
  | 0, first, _ => first
  | rounds + 1, first, last =>
      if first < last then
        let middle := first + (last - first) / 2
        if below middle then partitionPoint below rounds (middle + 1) last
        else partitionPoint below rounds first middle
      else
        first

/-- **The partition point.**  The predicate holds in front of the result and
nowhere behind it. -/
theorem partitionPoint_spec (below : Nat → Bool) {rounds first last : Nat}
    (hrounds : last - first ≤ rounds) (hle : first ≤ last)
    (hdown : ∀ i j, i ≤ j → j < last → below j = true → below i = true) :
    first ≤ partitionPoint below rounds first last ∧
      partitionPoint below rounds first last ≤ last ∧
      (∀ i, first ≤ i → i < partitionPoint below rounds first last → below i = true) ∧
      (∀ i, partitionPoint below rounds first last ≤ i → i < last → below i = false) := by
  induction rounds generalizing first last with
  | zero =>
      refine ⟨le_rfl, hle, fun i hi hlt => ?_, fun i hi hlt => ?_⟩
      · simp only [partitionPoint] at hlt
        omega
      · simp only [partitionPoint] at hi
        omega
  | succ rounds ih =>
      unfold partitionPoint
      by_cases hlt : first < last
      · simp only [if_pos hlt]
        by_cases hmiddle : below (first + (last - first) / 2) = true
        · simp only [if_pos hmiddle]
          obtain ⟨hfirst, hlast, hfront, hback⟩ :=
            ih (show last - (first + (last - first) / 2 + 1) ≤ rounds by omega)
              (by omega) hdown
          refine ⟨by omega, hlast, fun i hi hbefore => ?_, hback⟩
          by_cases hle' : i ≤ first + (last - first) / 2
          · exact hdown i _ hle' (by omega) hmiddle
          · exact hfront i (by omega) hbefore
        · simp only [if_neg hmiddle]
          obtain ⟨hfirst, hlast, hfront, hback⟩ :=
            ih (show first + (last - first) / 2 - first ≤ rounds by omega) (by omega)
              (fun i j hij hj => hdown i j hij (by omega))
          refine ⟨hfirst, by omega, hfront, fun i hi hbefore => ?_⟩
          by_cases hbelow : i < first + (last - first) / 2
          · exact hback i hi hbelow
          · refine Bool.eq_false_of_not_eq_true fun htrue => hmiddle ?_
            exact hdown _ i (by omega) hbefore htrue
      · simp only [if_neg hlt]
        exact ⟨le_rfl, hle, fun i _ _ => by omega, fun i _ _ => by omega⟩

/-- An element satisfies a predicate that holds in front of some point of the list exactly
if its index is below the number of elements that do. -/
theorem getElem?_lt_countP_iff {α : Type*} {below : α → Bool} {xs : List α} {j : Nat} {x : α}
    (hdown : xs.Pairwise fun y z => below z = true → below y = true) (hx : xs[j]? = some x) :
    j < xs.countP below ↔ below x = true := by
  have hsplit := List.take_append_drop j xs
  obtain ⟨hj, rfl⟩ := List.getElem?_eq_some_iff.mp hx
  rw [List.drop_eq_getElem_cons hj] at hsplit
  rw [← hsplit, List.pairwise_append, List.pairwise_cons] at hdown
  obtain ⟨-, ⟨hback, -⟩, hfront⟩ := hdown
  have hlength : (xs.take j).length = j := List.length_take_of_le hj.le
  constructor
  · intro hlt
    -- else only elements in front of it are counted
    by_contra hnot
    have hrest : (xs.drop (j + 1)).countP below = 0 :=
      List.countP_eq_zero.mpr fun y hy hbelow => hnot (hback y hy hbelow)
    have hcount := List.countP_le_length (p := below) (l := xs.take j)
    rw [← hsplit, List.countP_append, List.countP_cons_of_neg hnot, hrest] at hlt
    omega
  · intro hbelow
    have hall : (xs.take j).countP below = (xs.take j).length :=
      List.countP_eq_length.mpr fun y hy => hfront y hy _ List.mem_cons_self hbelow
    rw [← hsplit, List.countP_append, List.countP_cons_of_pos hbelow]
    omega

end PartitionPoint
