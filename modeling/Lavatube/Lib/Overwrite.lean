import Mathlib.Tactic

/-!
# Overwriting a part of a list

* `overwrite` — put a block over the elements from a position on.
* `overwrite_append_left`, `overwrite_append_right` — a block that lies in one
  half of a concatenation.
* `overwrite_middle` — a block that replaces a piece of its own length.
-/

namespace Overwrite

variable {α : Type*}

/-- The list with `block` put over the elements from `pos` on. -/
def overwrite (list : List α) (pos : Nat) (block : List α) : List α :=
  list.take pos ++ block ++ list.drop (pos + block.length)

theorem overwrite_length {list block : List α} {pos : Nat}
    (hfits : pos + block.length ≤ list.length) :
    (overwrite list pos block).length = list.length := by
  simp only [overwrite, List.length_append, List.length_take, List.length_drop]
  omega

theorem overwrite_append_left {left right block : List α} {pos : Nat}
    (hfits : pos + block.length ≤ left.length) :
    overwrite (left ++ right) pos block = overwrite left pos block ++ right := by
  unfold overwrite
  rw [List.take_append_of_le_length (by omega), List.drop_append_of_le_length hfits,
    List.append_assoc]
  simp only [List.append_assoc]

theorem overwrite_append_right {left right block : List α} {pos : Nat}
    (hpos : left.length ≤ pos) :
    overwrite (left ++ right) pos block =
      left ++ overwrite right (pos - left.length) block := by
  obtain ⟨rest, rfl⟩ := Nat.exists_eq_add_of_le hpos
  unfold overwrite
  rw [List.take_length_add_append, Nat.add_assoc, List.drop_length_add_append,
    Nat.add_sub_cancel_left]
  simp only [List.append_assoc]

/-- A block over a piece of the same length replaces that piece. -/
theorem overwrite_middle {left old right block : List α}
    (hlength : block.length = old.length) :
    overwrite (left ++ (old ++ right)) left.length block = left ++ (block ++ right) := by
  rw [overwrite_append_right le_rfl, Nat.sub_self,
    overwrite_append_left (by omega)]
  unfold overwrite
  simp [hlength]

end Overwrite
