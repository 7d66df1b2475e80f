import Mathlib.Tactic
import Mathlib.Data.List.TakeWhile

/-!
# A cursor that only moves forward

A list is searched again and again, and what one search passes over every later one would pass over
as well.  Then a search may start where the last one ended.

* `advance` — the cursor after a search.
* `Behind` — all items in front of the cursor are passed over.
* `Behind.advance`, `Behind.mono` — that stays so, from one search to the next.
* `Behind.getElem?_advance` — the search finds what a search from the start would find.
-/

namespace ForwardCursor

variable {Item : Type*}

/-- Move the cursor, which stands in front of a list, over the items that are passed. -/
def advance (passed : Item → Bool) : List Item → Nat → Nat
  | [], cursor => cursor
  | item :: ahead, cursor =>
      if passed item then advance passed ahead (cursor + 1) else cursor

/-- All items in front of the cursor are passed. -/
def Behind (passed : Item → Bool) (items : List Item) (cursor : Nat) : Prop :=
  ∀ item ∈ items.take cursor, passed item

variable {passed later : Item → Bool} {items : List Item} {cursor : Nat}

theorem advance_eq (ahead : List Item) (cursor : Nat) :
    advance passed ahead cursor = cursor + (ahead.takeWhile passed).length := by
  induction ahead generalizing cursor with
  | nil => rfl
  | cons item ahead ih =>
      rw [advance, List.takeWhile_cons]
      split_ifs
      · rw [ih, List.length_cons]
        omega
      · rfl

/-- What stands in front of the cursor after a search. -/
theorem take_advance (items : List Item) (cursor : Nat) :
    items.take (advance passed (items.drop cursor) cursor) =
      items.take cursor ++ (items.drop cursor).takeWhile passed := by
  rw [advance_eq, List.take_add]
  congr 1
  exact (List.prefix_iff_eq_take.mp (List.takeWhile_prefix passed)).symm

theorem behind_zero : Behind passed items 0 := by
  intro item hitem
  exact absurd hitem List.not_mem_nil

theorem Behind.mono (h : Behind passed items cursor)
    (hlater : ∀ item, passed item → later item) : Behind later items cursor :=
  fun item hitem => hlater item (h item hitem)

theorem Behind.advance (h : Behind passed items cursor) :
    Behind passed items (advance passed (items.drop cursor) cursor) := by
  intro item hitem
  rw [take_advance] at hitem
  exact (List.mem_append.mp hitem).elim (h item) List.mem_takeWhile_imp

/-- **The search from the cursor** finds the first item of the whole list that is not passed. -/
theorem Behind.getElem?_advance (h : Behind passed items cursor) :
    items[ForwardCursor.advance passed (items.drop cursor) cursor]? =
      items.find? fun item => ! passed item := by
  have hfront : (items.take cursor).find? (fun item => ! passed item) = none := by
    rw [List.find?_eq_none]
    intro item hitem
    simp [h item hitem]
  have hahead : (items.drop cursor)[((items.drop cursor).takeWhile passed).length]? =
      ((items.drop cursor).dropWhile passed).head? := by
    have hsplit := List.takeWhile_append_dropWhile (p := passed) (l := items.drop cursor)
    generalize (items.drop cursor).takeWhile passed = skipped at hsplit ⊢
    generalize (items.drop cursor).dropWhile passed = rest at hsplit ⊢
    rw [← hsplit, List.getElem?_append_right le_rfl, Nat.sub_self, List.head?_eq_getElem?]
  calc items[ForwardCursor.advance passed (items.drop cursor) cursor]?
      = (items.drop cursor)[((items.drop cursor).takeWhile passed).length]? := by
        rw [advance_eq, List.getElem?_drop]
    _ = (items.drop cursor).find? fun item => ! passed item := by
        rw [hahead, List.find?_not_eq_head?_dropWhile]
    _ = (items.take cursor ++ items.drop cursor).find? fun item => ! passed item := by
        rw [List.find?_append, hfront, Option.none_or]
    _ = items.find? fun item => ! passed item := by rw [List.take_append_drop]

end ForwardCursor
