import Lavatube.Patch

/-!
# The first difference

`find_patch_start` looks for the first place where the clone of an object and its current bytes
differ.  It compares 8 bytes, then 256 bytes at a time for as long as they agree, then 8 bytes at a
time, and at last the bytes that are left.  `patchscan_perf.cpp` has the plain scan beside it, which
makes no use of the long stride, and compares the two.

* `Readable` — a byte array of which a part can be read.
* `checkedFindPatchStart` — the scan; it fails at a byte that cannot be read.
* `checkedFindPatchStart_window` — nothing outside of the range is read.
* `BlockStart`, `BlockDiffers` — the blocks of 8 bytes and the tail.
* `findPatchStart_least` — the result is the first block that differs.
* `findPatchStartWord_window` — the plain scan has the same result.
-/

namespace Lavatube
namespace FirstDifference

open ByteMemory Patch

/-- A byte array, by position; `none` is a byte that must not be read. -/
abbrev Readable := Nat → Option UInt8

/-- Of a memory, the `count` bytes from `low` on and nothing else. -/
def window (mem : Memory) (low count : Nat) : Readable :=
  fun i => if low ≤ i ∧ i < low + count then some (mem i) else none

/-- `memcmp(left + pos, right + pos, count) != 0`, which may look at all bytes of both stretches. -/
def memcmp (left right : Readable) (pos count : Nat) : Option Bool :=
  if ∀ i < count, (left (pos + i)).isSome ∧ (right (pos + i)).isSome then
    some (decide (∃ i < count, left (pos + i) ≠ right (pos + i)))
  else
    none

/-- One of the two stride loops: the position at which it ends, and whether it ends there at a
difference.  Every round consumes a block, so that the size bounds the number of rounds. -/
def strideLoop (orig chng : Readable) (block size : Nat) : Nat → Nat → Option (Nat × Bool)
  | 0, pos => some (pos, false)
  | rounds + 1, pos =>
      if size - pos ≥ block then
        match memcmp orig chng pos block with
        | none => none
        | some true => some (pos, true)
        | some false => strideLoop orig chng block size rounds (pos + block)
      else
        some (pos, false)

/-- What both scans do with the bytes that are left at the end. -/
def scanTail (orig chng : Readable) (size pos : Nat) : Option Nat :=
  if pos < size then
    (memcmp orig chng pos (size - pos)).map fun differs => if differs then pos else size
  else
    some size

/-- The 8-byte loop, and the bytes that are left. -/
def scanWords (orig chng : Readable) (size pos : Nat) : Option Nat :=
  match strideLoop orig chng 8 size size pos with
  | none => none
  | some (pos, true) => some pos
  | some (pos, false) => scanTail orig chng size pos

/-- An array through a pointer that is advanced by `offset`. -/
def advance (array : Readable) (offset : Nat) : Readable := fun i => array (offset + i)

/-- `file_writer::find_patch_start`. -/
def checkedFindPatchStart (orig chng : Readable) (offset size : Nat) : Option Nat :=
  let orig := advance orig offset
  let chng := advance chng offset
  match if size ≥ 8 then memcmp orig chng 0 8 else some false with
  | none => none
  | some true => some 0
  | some false =>
      let pos := if size ≥ 8 then 8 else 0
      match strideLoop orig chng 256 size size pos with
      | none => none
      | some (pos, _) => scanWords orig chng size pos

/-- `find_patch_start_word`, the plain scan. -/
def findPatchStartWord (orig chng : Readable) (offset size : Nat) : Option Nat :=
  scanWords (advance orig offset) (advance chng offset) size 0

/-! ### What is read -/

section Window

variable (orig chng : Memory) (size : Nat)

theorem advance_window (mem : Memory) (offset size : Nat) :
    advance (window mem offset size) offset = window (shift mem offset) 0 size := by
  funext i
  show (if offset ≤ offset + i ∧ offset + i < offset + size then some (mem (offset + i)) else none)
    = if 0 ≤ i ∧ i < 0 + size then some (mem (offset + i)) else none
  congr 1
  simp

/-- A comparison inside of the window. -/
theorem memcmp_window {pos count : Nat} (hinside : pos + count ≤ size) :
    memcmp (window orig 0 size) (window chng 0 size) pos count =
      some (! same orig chng pos count) := by
  have hread : ∀ mem : Memory, ∀ i < count, window mem 0 size (pos + i) = some (mem (pos + i)) := by
    intro mem i hi
    exact if_pos ⟨Nat.zero_le _, by omega⟩
  unfold memcmp
  rw [if_pos]
  · congr 1
    rw [Bool.eq_iff_iff, decide_eq_true_eq, Bool.not_eq_true', same_eq_false_iff]
    constructor
    · rintro ⟨i, hi, hne⟩
      rw [hread orig i hi, hread chng i hi, ne_eq, Option.some_inj] at hne
      exact ⟨pos + i, by omega, by omega, hne⟩
    · rintro ⟨i, hlow, hhigh, hne⟩
      have hi : i - pos < count := by omega
      use i - pos, hi
      rw [hread orig _ hi, hread chng _ hi, ne_eq, Option.some_inj, Nat.add_sub_cancel' hlow]
      exact hne
  · intro i hi
    rw [hread orig i hi, hread chng i hi]
    exact ⟨rfl, rfl⟩

/-- A stride loop stays in the window, and ends at a difference if there is room for a block. -/
theorem strideLoop_window {block rounds pos : Nat} (hblock : 0 < block) (hpos : pos ≤ size)
    (hrounds : size ≤ pos + rounds) :
    strideLoop (window orig 0 size) (window chng 0 size) block size rounds pos =
      some (skipBlocks orig chng block size rounds pos,
        decide (size - skipBlocks orig chng block size rounds pos ≥ block)) := by
  induction rounds generalizing pos with
  | zero =>
      have hshort : ¬ size - pos ≥ block := by omega
      simp [strideLoop, skipBlocks, hshort]
  | succ rounds ih =>
      unfold strideLoop skipBlocks
      by_cases hroom : size - pos ≥ block
      · rw [if_pos hroom, memcmp_window orig chng size (by omega)]
        cases hsame : same orig chng pos block with
        | true =>
            rw [if_pos ⟨hroom, rfl⟩]
            exact ih (by omega) (by omega)
        | false =>
            rw [if_neg (by simp)]
            simp [hroom]
      · rw [if_neg hroom, if_neg (fun h => hroom h.1)]
        simp [hroom]

/-- The last two steps of a scan stay in the window. -/
theorem scanWords_window {pos : Nat} (hpos : pos ≤ size) :
    scanWords (window orig 0 size) (window chng 0 size) size pos =
      some (let stop := skipBlocks orig chng 8 size size pos
        if size - stop ≥ 8 then stop
        else if stop < size ∧ ¬ same orig chng stop (size - stop) then stop else size) := by
  obtain ⟨-, hstop, -⟩ :=
    skipBlocks_spec orig chng 8 size size pos (by decide) hpos (by omega)
  unfold scanWords
  rw [strideLoop_window orig chng size (by decide) hpos (by omega)]
  generalize skipBlocks orig chng 8 size size pos = stop at hstop ⊢
  by_cases hroom : size - stop ≥ 8
  · simp [hroom]
  · simp only [hroom, decide_false, if_false]
    unfold scanTail
    by_cases hleft : stop < size
    · rw [if_pos hleft, memcmp_window orig chng size (by omega)]
      cases same orig chng stop (size - stop) <;> simp [hleft]
    · simp [hleft]

end Window

/-- **Nothing outside of the range is read**: the scan does its work on arrays of which only the
range can be read. -/
theorem checkedFindPatchStart_window (orig chng : Memory) (offset size : Nat) :
    checkedFindPatchStart (window orig offset size) (window chng offset size) offset size =
      some (findPatchStart orig chng offset size) := by
  unfold checkedFindPatchStart findPatchStart scanStart
  simp only [advance_window]
  generalize shift orig offset = orig
  generalize shift chng offset = chng
  have hhead : (if size ≥ 8 then memcmp (window orig 0 size) (window chng 0 size) 0 8
      else some false) = some (decide (size ≥ 8 ∧ ¬ same orig chng 0 8)) := by
    by_cases hsize : size ≥ 8
    · rw [if_pos hsize, memcmp_window orig chng size (by omega)]
      simp [hsize]
    · simp [hsize]
  have hpos : (if size ≥ 8 then 8 else 0) ≤ size := by
    split_ifs <;> omega
  obtain ⟨-, hstop, -⟩ := skipBlocks_spec orig chng 256 size size _ (by decide) hpos (by omega)
  rw [hhead]
  by_cases hfirst : size ≥ 8 ∧ ¬ same orig chng 0 8
  · rw [decide_eq_true hfirst, if_pos hfirst]
  · rw [decide_eq_false hfirst, if_neg hfirst]
    simp only
    rw [strideLoop_window orig chng size (by decide) hpos (by omega)]
    exact scanWords_window orig chng size hstop

/-! ### What is found -/

/-- A block of the plain scan starts at `k`: at a multiple of 8, or at the tail. -/
def BlockStart (size k : Nat) : Prop := k < size ∧ (8 ∣ k ∨ k = size - size % 8)

/-- The block that starts at `offset + k`, of 8 bytes or less, differs. -/
def BlockDiffers (orig chng : Memory) (offset size k : Nat) : Prop :=
  ∃ i, offset + k ≤ i ∧ i < offset + min (k + 8) size ∧ orig i ≠ chng i

/-- The tail starts at a multiple of 8 as well. -/
theorem BlockStart.dvd {size k : Nat} (h : BlockStart size k) : 8 ∣ k := by
  obtain ⟨-, hdvd | htail⟩ := h
  · exact hdvd
  · omega

/-- A position is the first block that differs if it is the end or a block that differs, and
everything in front of it agrees. -/
theorem least_of_equal {orig chng : Memory} {offset size pos : Nat} (hle : pos ≤ size)
    (hequal : ∀ i, offset ≤ i → i < offset + pos → orig i = chng i)
    (hblock : pos < size → 8 ∣ pos ∧ BlockDiffers orig chng offset size pos) :
    IsLeast (insert size {k | BlockStart size k ∧ BlockDiffers orig chng offset size k}) pos := by
  constructor
  · rcases Nat.eq_or_lt_of_le hle with heq | hlt
    · exact Or.inl heq
    · obtain ⟨hdvd, hdiffers⟩ := hblock hlt
      exact Or.inr ⟨⟨hlt, Or.inl hdvd⟩, hdiffers⟩
  · rintro k (rfl | ⟨hstart, i, hlow, hhigh, hne⟩)
    · exact hle
    · by_contra hlt
      -- the whole block lies in front of the position, where nothing differs
      have hin : i < offset + pos := by
        have hdvd := hstart.dvd
        rcases Nat.eq_or_lt_of_le hle with heq | hpos
        · omega
        · have := (hblock hpos).1
          omega
      exact hne (hequal i (by omega) hin)

/-- **The first difference.**  The result is the start of the first block that differs, and the size
if there is none. -/
theorem findPatchStart_least (orig chng : Memory) (offset size : Nat) :
    IsLeast (insert size {k | BlockStart size k ∧ BlockDiffers orig chng offset size k})
      (findPatchStart orig chng offset size) := by
  obtain ⟨hle, hequal, hdiffers⟩ := findPatchStart_spec orig chng offset size
  apply least_of_equal hle hequal
  intro hlt
  obtain ⟨i, hlow, hhigh, hne⟩ := hdiffers hlt
  exact ⟨findPatchStart_dvd hlt, i, hlow, by omega, hne⟩

/-- A comparison through the advanced pointers that finds a difference. -/
theorem blockDiffers_of_same {orig chng : Memory} {offset size pos count : Nat}
    (hsame : same (shift orig offset) (shift chng offset) pos count = false)
    (hcount : count ≤ 8) (hinside : pos + count ≤ size) : BlockDiffers orig chng offset size pos := by
  obtain ⟨i, hlow, hhigh, hne⟩ := (same_eq_false_iff _ _ _ _).mp hsame
  exact ⟨offset + i, by omega, by omega, hne⟩

/-- **The scans agree.**  The plain scan reads nothing outside of the range either, and has the
result of `find_patch_start`. -/
theorem findPatchStartWord_window (orig chng : Memory) (offset size : Nat) :
    findPatchStartWord (window orig offset size) (window chng offset size) offset size =
      some (findPatchStart orig chng offset size) := by
  obtain ⟨-, hstop, ⟨count, hcount⟩, hequal, hend⟩ := skipBlocks_spec (shift orig offset)
    (shift chng offset) 8 size size 0 (by decide) (Nat.zero_le _) (by omega)
  unfold findPatchStartWord
  rw [advance_window, advance_window, scanWords_window _ _ _ (Nat.zero_le _), Option.some_inj]
  simp only
  generalize skipBlocks (shift orig offset) (shift chng offset) 8 size size 0 = stop at *
  have hfront : ∀ i, offset ≤ i → i < offset + stop → orig i = chng i := by
    intro i hlow hhigh
    have := hequal (i - offset) (Nat.zero_le _) (by omega)
    rwa [shift_sub _ hlow, shift_sub _ hlow] at this
  have hdvd : 8 ∣ stop := by omega
  apply IsLeast.unique _ (findPatchStart_least orig chng offset size)
  by_cases hroom : size - stop ≥ 8
  · rw [if_pos hroom]
    have hdiffers := hend.resolve_left (by omega)
    exact least_of_equal hstop hfront
      fun _ => ⟨hdvd, blockDiffers_of_same hdiffers le_rfl (by omega)⟩
  · rw [if_neg hroom]
    by_cases htail : stop < size ∧ ¬ same (shift orig offset) (shift chng offset) stop (size - stop)
    · rw [if_pos htail]
      have hdiffers := Bool.eq_false_of_not_eq_true htail.2
      exact least_of_equal hstop hfront
        fun _ => ⟨hdvd, blockDiffers_of_same hdiffers (by omega) (by omega)⟩
    · rw [if_neg htail]
      apply least_of_equal le_rfl _ fun hlt => absurd hlt (lt_irrefl size)
      intro i hlow hhigh
      by_cases hin : i < offset + stop
      · exact hfront i hlow hin
      · have hsame : same (shift orig offset) (shift chng offset) stop (size - stop) = true := by
          by_contra hdiff
          exact htail ⟨by omega, hdiff⟩
        have := (same_iff _ _ _ _).mp hsame (i - offset) (by omega) (by omega)
        rwa [shift_sub _ hlow, shift_sub _ hlow] at this

/-- **`find_patch_start` is the first-difference scan.**  It reads nothing outside of the range; its
result is the start of the first block of up to 8 bytes that differs, and it is the size exactly if
the range agrees. -/
theorem findPatchStart_first_difference (orig chng : Memory) (offset size : Nat) :
    checkedFindPatchStart (window orig offset size) (window chng offset size) offset size =
        some (findPatchStart orig chng offset size) ∧
      IsLeast (insert size {k | BlockStart size k ∧ BlockDiffers orig chng offset size k})
        (findPatchStart orig chng offset size) ∧
      (findPatchStart orig chng offset size = size ↔
        ∀ i, offset ≤ i → i < offset + size → orig i = chng i) :=
  ⟨checkedFindPatchStart_window orig chng offset size, findPatchStart_least orig chng offset size,
    findPatchStart_eq_size_iff orig chng offset size⟩

/-- A byte of the third block differs, and the scan starts at the second. -/
example : checkedFindPatchStart (window zeroed 8 16)
    (window (Function.update zeroed 17 1) 8 16) 8 16 = some 8 := by decide

end FirstDifference
end Lavatube
