import Mathlib.Tactic

/-!
# Byte memories

Memory seen through a pointer is a function from positions to bytes; what lies
outside the object the pointer was made for is there too, but no lemma below
says anything about it.

* `slice` — the bytes of a window as a list.
* `same` — `memcmp` of two windows at the same position.
* `copy` — `memcpy` between two memories at the same position.
* `store` — `memcpy` of a list of bytes to a position.
* `shift`, `rebase` — the memory seen through an advanced pointer, and a memory
  written through one.
-/

namespace ByteMemory

/-- A memory, by position relative to some base pointer. -/
abbrev Memory := Nat → UInt8

/-- The memory with every byte zero. -/
def zeroed : Memory := fun _ => 0

/-- The memory seen through a pointer advanced by `base`. -/
def shift (mem : Memory) (base : Nat) : Memory := fun i => mem (base + i)

/-- The memory with everything from `base` on replaced by another memory, whose
positions count from `base`. -/
def rebase (mem : Memory) (base : Nat) (part : Memory) : Memory :=
  fun i => if base ≤ i then part (i - base) else mem i

/-- The `count` bytes from `pos` on. -/
def slice (mem : Memory) (pos count : Nat) : List UInt8 :=
  (List.range count).map fun i => mem (pos + i)

/-- Whether two memories agree on the `count` bytes from `pos` on. -/
def same (left right : Memory) (pos count : Nat) : Bool :=
  (List.range count).all fun i => left (pos + i) == right (pos + i)

/-- Copy `count` bytes from `src` to the same position of `dst`. -/
def copy (dst src : Memory) (pos count : Nat) : Memory :=
  fun i => if pos ≤ i ∧ i < pos + count then src i else dst i

/-- Copy a list of bytes to position `pos` of `dst`. -/
def store (dst : Memory) (pos : Nat) (bytes : List UInt8) : Memory :=
  fun i => if pos ≤ i ∧ i < pos + bytes.length then
    bytes.getD (i - pos) 0 else dst i

/-- Positions behind the base, seen from there. -/
theorem shift_sub (mem : Memory) {base i : Nat} (hle : base ≤ i) :
    shift mem base (i - base) = mem i := by
  rw [shift, Nat.add_sub_cancel' hle]

@[simp] theorem slice_length (mem : Memory) (pos count : Nat) :
    (slice mem pos count).length = count := by
  simp [slice]

theorem same_iff (left right : Memory) (pos count : Nat) :
    same left right pos count = true ↔
      ∀ i, pos ≤ i → i < pos + count → left i = right i := by
  unfold same
  rw [List.all_eq_true]
  constructor
  · intro hall i hlow hhigh
    have := hall (i - pos) (List.mem_range.mpr (by omega))
    simpa [Nat.add_sub_cancel' hlow] using this
  · intro hall i hi
    have hi := List.mem_range.mp hi
    simpa using hall (pos + i) (by omega) (by omega)

/-- Two windows differ exactly when some byte of them does. -/
theorem same_eq_false_iff (left right : Memory) (pos count : Nat) :
    same left right pos count = false ↔
      ∃ i, pos ≤ i ∧ i < pos + count ∧ left i ≠ right i := by
  rw [← Bool.not_eq_true, same_iff]
  push Not
  rfl

@[simp] theorem same_zero (left right : Memory) (pos : Nat) :
    same left right pos 0 = true := rfl

theorem copy_zero (dst src : Memory) (pos : Nat) : copy dst src pos 0 = dst := by
  funext i
  unfold copy
  rw [if_neg (by omega)]

/-- Two adjacent copies are one. -/
theorem copy_copy (dst src : Memory) (pos first second : Nat) :
    copy (copy dst src pos first) src (pos + first) second =
      copy dst src pos (first + second) := by
  funext i
  unfold copy
  by_cases hsecond : pos + first ≤ i ∧ i < pos + first + second
  · rw [if_pos hsecond, if_pos (by omega)]
  · rw [if_neg hsecond]
    by_cases hfirst : pos ≤ i ∧ i < pos + first
    · rw [if_pos hfirst, if_pos (by omega)]
    · rw [if_neg hfirst, if_neg (by omega)]

/-- Copying what is already there changes nothing. -/
theorem copy_of_same {dst src : Memory} {pos count : Nat}
    (hsame : same dst src pos count = true) : copy dst src pos count = dst := by
  funext i
  unfold copy
  split
  · case _ hi => exact ((same_iff dst src pos count).mp hsame i hi.1 hi.2).symm
  · rfl

/-- A copied window does not affect a comparison of a later one. -/
theorem same_copy_of_le {dst src : Memory} {pos count later length : Nat}
    (hlater : pos + count ≤ later) :
    same (copy dst src pos count) src later length = same dst src later length := by
  rw [Bool.eq_iff_iff, same_iff, same_iff]
  refine forall_congr' fun i => forall_congr' fun hlow => forall_congr' fun _ => ?_
  unfold copy
  rw [if_neg (by omega)]

/-- A copy made through advanced pointers. -/
theorem rebase_copy_shift (dst src : Memory) (base pos count : Nat) :
    rebase dst base (copy (shift dst base) (shift src base) pos count) =
      copy dst src (base + pos) count := by
  funext i
  unfold rebase copy shift
  by_cases hbase : base ≤ i
  · rw [if_pos hbase, Nat.add_sub_cancel' hbase]
    by_cases hin : pos ≤ i - base ∧ i - base < pos + count
    · rw [if_pos hin, if_pos (by omega)]
    · rw [if_neg hin, if_neg (by omega)]
  · rw [if_neg hbase, if_neg (by omega)]

/-- Storing a slice of a memory is copying from it. -/
theorem store_slice (dst src : Memory) (pos count : Nat) :
    store dst pos (slice src pos count) = copy dst src pos count := by
  funext i
  unfold store copy
  rw [slice_length]
  split
  · case _ hi =>
      have hlt : i - pos < count := by omega
      simp [slice, List.getD_eq_getElem?_getD, hlt, Nat.add_sub_cancel' hi.1]
  · rfl

theorem slice_congr {left right : Memory} {pos count : Nat}
    (hequal : ∀ i, pos ≤ i → i < pos + count → left i = right i) :
    slice left pos count = slice right pos count := by
  refine List.map_congr_left fun i hi => hequal (pos + i) (by omega) ?_
  have := List.mem_range.mp hi
  omega

/-- What has been stored is read back. -/
theorem slice_store_self (dst : Memory) (pos : Nat) (bytes : List UInt8) :
    slice (store dst pos bytes) pos bytes.length = bytes := by
  refine List.ext_getElem (by simp) fun i hi hlt => ?_
  have hin : pos ≤ pos + i ∧ pos + i < pos + bytes.length := by omega
  simp [slice, store, List.getD_eq_getElem?_getD, hlt]

theorem store_of_not_mem {dst : Memory} {pos i : Nat} {bytes : List UInt8}
    (hout : ¬ (pos ≤ i ∧ i < pos + bytes.length)) : store dst pos bytes i = dst i :=
  if_neg hout

/-- The part of a slice in front of a position in it. -/
theorem slice_add (mem : Memory) (pos first second : Nat) :
    slice mem pos (first + second) =
      slice mem pos first ++ slice mem (pos + first) second := by
  unfold slice
  rw [List.range_add, List.map_append, List.map_map]
  simp [Function.comp_def, Nat.add_assoc]

theorem take_slice (mem : Memory) (pos : Nat) {count total : Nat} (hle : count ≤ total) :
    (slice mem pos total).take count = slice mem pos count := by
  rw [← Nat.add_sub_cancel' hle, slice_add, List.take_left' (slice_length ..)]

theorem drop_slice (mem : Memory) (pos : Nat) {count total : Nat} (hle : count ≤ total) :
    (slice mem pos total).drop count = slice mem (pos + count) (total - count) := by
  conv_lhs => rw [← Nat.add_sub_cancel' hle, slice_add]
  exact List.drop_left' (slice_length ..)

end ByteMemory
