import Lavatube.Lib.ByteMemory
import Lavatube.Lib.LittleEndian

/-!
# Memory patches

`file_writer::find_patch_start`, `file_writer::write_patch` and
`file_reader::read_patch`: the difference between the capture clone of an
object and its current bytes, as a list of spans.

A span is a 32-bit offset relative to the end of the previous span, a 32-bit
length and the bytes; a span of offset zero and length zero ends the patch.
The scan works in 8-byte blocks, with a 256-byte stride over equal memory.

`orig` is the clone, `chng` the mapped memory; both pointers stand at the start
of the object.  The offset parameter of `write_patch` has 32 bits although its
callers pass 64-bit offsets, and so has the length counter `c`.

* `findPatchStart_spec` — the first block that differs.
* `writePatch_clone` — the clone is brought up to date on the scanned window.
* `readPatch_writePatch_rewrite` — applying a patch elsewhere rewrites the blocks that differ
  there and leaves the others.
-/

namespace Lavatube
namespace Patch

open ByteMemory

/-- One of the two stride loops of `find_patch_start`: advance over equal
blocks of `block` bytes. -/
def skipBlocks (orig chng : Memory) (block size : Nat) : Nat → Nat → Nat
  | 0, pos => pos
  | rounds + 1, pos =>
      if size - pos ≥ block ∧ same orig chng pos block then
        skipBlocks orig chng block size rounds (pos + block)
      else
        pos

/-- `find_patch_start` with both pointers already advanced by the offset. -/
def scanStart (orig chng : Memory) (size : Nat) : Nat :=
  if size ≥ 8 ∧ ¬ same orig chng 0 8 then
    0
  else
    let pos := if size ≥ 8 then 8 else 0
    let pos := skipBlocks orig chng 256 size size pos
    let pos := skipBlocks orig chng 8 size size pos
    if size - pos ≥ 8 then
      pos
    else if pos < size ∧ ¬ same orig chng pos (size - pos) then
      pos
    else
      size

/-- `file_writer::find_patch_start`. -/
def findPatchStart (orig chng : Memory) (offset size : Nat) : Nat :=
  scanStart (shift orig offset) (shift chng offset) size

/-- The loop over differing blocks in `write_patch`: it updates the clone and
counts the bytes in the 32-bit counter `c`.  The result is the clone, the
position, the counter and the number of bytes left. -/
def copyDiffering (chng : Memory) :
    Nat → Memory → Nat → Nat → Nat → Memory × Nat × Nat × Nat
  | 0, orig, pos, c, left => (orig, pos, c, left)
  | rounds + 1, orig, pos, c, left =>
      if left ≥ 8 ∧ ¬ same orig chng pos 8 then
        copyDiffering chng rounds (copy orig chng pos 8) (pos + 8)
          ((c + 8) % 2 ^ 32) (left - 8)
      else
        (orig, pos, c, left)

/-- The remainder shorter than one block: the clone, the counter and the number
of bytes left after it. -/
def copyTail (chng orig : Memory) (pos c left : Nat) : Memory × Nat × Nat :=
  if left < 8 then
    if same chng orig pos left then (orig, c, 0)
    else (copy orig chng pos left, (c + left) % 2 ^ 32, 0)
  else
    (orig, c, left)

/-- One span as `write_patch` puts it into the stream. -/
def span (offset c : Nat) (payload : List UInt8) : List UInt8 :=
  LittleEndian.encode 4 offset ++ LittleEndian.encode 4 c ++ payload

/-- The main loop of `write_patch`: the spans it emits, the clone afterwards
and the number of bytes changed.  Every round consumes at least one byte, so
the window size bounds the number of rounds. -/
def patchLoop (chng : Memory) :
    Nat → Memory → Nat → Nat → Nat → List (List UInt8) × Memory × Nat
  | 0, orig, _, _, _ => ([], orig, 0)
  | rounds + 1, orig, pos, offset, left =>
      if left = 0 then
        ([], orig, 0)
      else
        let identical := findPatchStart orig chng pos left
        let start := pos + identical
        let offset := (offset + identical) % 2 ^ 32
        let diff := copyDiffering chng left orig start 0 (left - identical)
        let tail := copyTail chng diff.1 diff.2.1 diff.2.2.1 diff.2.2.2
        let c := tail.2.1
        if c ≠ 0 then
          let rest := patchLoop chng rounds tail.1 diff.2.1 0 tail.2.2
          (span offset c (slice chng start c) :: rest.1, rest.2.1, c + rest.2.2)
        else
          patchLoop chng rounds tail.1 diff.2.1 offset tail.2.2

/-- The result of `write_patch`: the pieces handed to the stream, each of them
kept in one chunk, the clone afterwards and the returned number of bytes. -/
structure Written where
  pieces : List (List UInt8)
  clone : Memory
  changed : Nat

/-- `file_writer::write_patch`.  The offset arrives in a 32-bit parameter. -/
def writePatch (orig chng : Memory) (offset size : Nat) : Written :=
  let offset := offset % 2 ^ 32
  let result := patchLoop chng size orig offset offset size
  { pieces := result.1 ++ [LittleEndian.encode 4 0, LittleEndian.encode 4 0]
    clone := result.2.1
    changed := result.2.2 }

/-- The bytes a patch adds to the stream. -/
def Written.bytes (written : Written) : List UInt8 := written.pieces.flatten

/-- `read_uint32_t` from a list of bytes. -/
def readUint32 (input : List UInt8) : Option (Nat × List UInt8) :=
  if 4 ≤ input.length then
    some (LittleEndian.decode (input.take 4), input.drop 4)
  else
    none

/-- The loop of `read_patch`; `none` is a read past the input or a failed
assertion on `maxsize`. -/
def readPatchLoop (maxsize : Nat) :
    Nat → Memory → Nat → Nat → List UInt8 → Option (Memory × Nat × List UInt8)
  | 0, _, _, _, _ => none
  | rounds + 1, buf, position, changed, input =>
      match readUint32 input with
      | none => none
      | some (offset, input) =>
          let position := position + offset
          if maxsize = 0 ∨ position ≤ maxsize then
            match readUint32 input with
            | none => none
            | some (size, input) =>
                if size ≤ input.length then
                  let buf := store buf position (input.take size)
                  let input := input.drop size
                  let position := position + size
                  let changed := changed + size
                  if maxsize = 0 ∨ position ≤ maxsize then
                    if offset = 0 ∧ size = 0 then
                      some (buf, changed % 2 ^ 32, input)
                    else
                      readPatchLoop maxsize rounds buf position changed input
                  else none
                else none
          else none

/-- `file_reader::read_patch` on a buffer of `maxsize` bytes: the buffer, the
returned 32-bit count and the rest of the input.  Every round consumes eight
bytes at least, so the input bounds the number of rounds. -/
def readPatch (buf : Memory) (maxsize : Nat) (input : List UInt8) :
    Option (Memory × Nat × List UInt8) :=
  readPatchLoop maxsize (input.length + 1) buf 0 0 input

/-! ## The first difference -/

theorem skipBlocks_spec (orig chng : Memory) (block size rounds pos : Nat)
    (hblock : 0 < block) (hpos : pos ≤ size) (hrounds : size ≤ pos + rounds) :
    let stop := skipBlocks orig chng block size rounds pos
    pos ≤ stop ∧ stop ≤ size ∧
      (∃ count, stop = pos + count * block) ∧
      (∀ i, pos ≤ i → i < stop → orig i = chng i) ∧
      (size - stop < block ∨ same orig chng stop block = false) := by
  induction rounds generalizing pos with
  | zero =>
      have hstop : pos = size := by omega
      subst hstop
      refine ⟨le_rfl, le_rfl, ⟨0, by simp [skipBlocks]⟩, ?_, ?_⟩
      · intro i hlow hhigh
        simp only [skipBlocks] at hhigh
        omega
      · left
        simp only [skipBlocks]
        omega
  | succ rounds ih =>
      unfold skipBlocks
      split
      · case _ hskip =>
          obtain ⟨hroom, hsame⟩ := hskip
          obtain ⟨hlow, hhigh, ⟨count, hcount⟩, hequal, hend⟩ :=
            ih (pos + block) (by omega) (by omega)
          refine ⟨by omega, hhigh, ⟨count + 1, ?_⟩, ?_, hend⟩
          · rw [hcount]
            ring
          · intro i hi hlt
            by_cases hin : i < pos + block
            · exact (same_iff orig chng pos block).mp hsame i hi hin
            · exact hequal i (by omega) hlt
      · case _ hstay =>
          refine ⟨le_rfl, hpos, ⟨0, by simp⟩, ?_, ?_⟩
          · intro i hlow hhigh
            omega
          · by_cases hroom : size - pos ≥ block
            · right
              rw [← Bool.not_eq_true]
              exact fun hsame => hstay ⟨hroom, hsame⟩
            · left
              omega

/-- **The first differing block.**  The result is the start of an 8-byte block
(or of the shorter tail) that differs, with everything before it equal, or the
window size when the windows agree. -/
theorem scanStart_spec (orig chng : Memory) (size : Nat) :
    scanStart orig chng size ≤ size ∧
      (∀ i, i < scanStart orig chng size → orig i = chng i) ∧
      (scanStart orig chng size < size →
        8 ∣ scanStart orig chng size ∧
          same orig chng (scanStart orig chng size)
            (min 8 (size - scanStart orig chng size)) = false) := by
  unfold scanStart
  split
  · case _ hfirst =>
      refine ⟨by omega, by omega, fun _ => ⟨dvd_zero 8, ?_⟩⟩
      rw [min_eq_left (by omega)]
      simpa using hfirst.2
  · case _ hfirst =>
      -- the first block is equal, so both loops start behind it
      have hstart : ∀ i, i < (if size ≥ 8 then 8 else 0) → orig i = chng i := by
        intro i hi
        split at hi
        · case _ hsize =>
            have hsame : same orig chng 0 8 = true := by
              by_contra hdiff
              exact hfirst ⟨hsize, hdiff⟩
            exact (same_iff orig chng 0 8).mp hsame i (by omega) (by omega)
        · omega
      have hstartLe : (if size ≥ 8 then 8 else 0) ≤ size := by
        split <;> omega
      have hstartDvd : 8 ∣ (if size ≥ 8 then 8 else 0) := by
        split <;> simp
      obtain ⟨hlowA, hhighA, ⟨countA, hcountA⟩, hequalA, -⟩ :=
        skipBlocks_spec orig chng 256 size size
          (if size ≥ 8 then 8 else 0) (by omega) hstartLe (by omega)
      obtain ⟨hlowB, hhighB, ⟨countB, hcountB⟩, hequalB, hendB⟩ :=
        skipBlocks_spec orig chng 8 size size
          (skipBlocks orig chng 256 size size (if size ≥ 8 then 8 else 0))
          (by omega) hhighA (by omega)
      simp only
      generalize skipBlocks orig chng 256 size size
        (if size ≥ 8 then 8 else 0) = posA at *
      generalize skipBlocks orig chng 8 size size posA = posB at *
      have hequal : ∀ i, i < posB → orig i = chng i := by
        intro i hi
        by_cases hA : i < (if size ≥ 8 then 8 else 0)
        · exact hstart i hA
        · by_cases hB : i < posA
          · exact hequalA i (by omega) hB
          · exact hequalB i (by omega) hi
      have hdvd : 8 ∣ posB := by
        rw [hcountB, hcountA]
        omega
      split
      · case _ hroom =>
          refine ⟨hhighB, hequal, fun _ => ⟨hdvd, ?_⟩⟩
          rw [min_eq_left hroom]
          rcases hendB with hshort | hdiff
          · omega
          · exact hdiff
      · case _ hshort =>
          split
          · case _ htail =>
              refine ⟨hhighB, hequal, fun _ => ⟨hdvd, ?_⟩⟩
              rw [min_eq_right (by omega)]
              simpa using htail.2
          · case _ htail =>
              refine ⟨le_rfl, ?_, fun hlt => absurd hlt (lt_irrefl size)⟩
              intro i hi
              by_cases hB : i < posB
              · exact hequal i hB
              · have hsame : same orig chng posB (size - posB) = true := by
                  by_contra hdiff
                  exact htail ⟨by omega, hdiff⟩
                exact (same_iff orig chng posB (size - posB)).mp hsame i
                  (by omega) (by omega)

theorem findPatchStart_spec (orig chng : Memory) (offset size : Nat) :
    findPatchStart orig chng offset size ≤ size ∧
      (∀ i, offset ≤ i → i < offset + findPatchStart orig chng offset size →
        orig i = chng i) ∧
      (findPatchStart orig chng offset size < size →
        ∃ i, offset + findPatchStart orig chng offset size ≤ i ∧
          i < offset + findPatchStart orig chng offset size +
            min 8 (size - findPatchStart orig chng offset size) ∧
          orig i ≠ chng i) := by
  obtain ⟨hle, hequal, hdiff⟩ :=
    scanStart_spec (shift orig offset) (shift chng offset) size
  change findPatchStart orig chng offset size ≤ size at hle
  change ∀ i, i < findPatchStart orig chng offset size → _ at hequal
  change findPatchStart orig chng offset size < size → _ ∧
    same _ _ (findPatchStart orig chng offset size)
      (min 8 (size - findPatchStart orig chng offset size)) = false at hdiff
  refine ⟨hle, ?_, ?_⟩
  · intro i hlow hhigh
    have := hequal (i - offset) (by omega)
    rwa [shift_sub _ hlow, shift_sub _ hlow] at this
  · intro hlt
    obtain ⟨i, hlow, hhigh, hne⟩ :=
      (same_eq_false_iff _ _ _ _).mp (hdiff hlt).2
    exact ⟨offset + i, by omega, by omega, hne⟩

/-- The result is the start of a block. -/
theorem findPatchStart_dvd {orig chng : Memory} {offset size : Nat}
    (hlt : findPatchStart orig chng offset size < size) :
    8 ∣ findPatchStart orig chng offset size :=
  ((scanStart_spec (shift orig offset) (shift chng offset) size).2.2 hlt).1

/-- `find_patch_start` returns the size exactly when the windows agree. -/
theorem findPatchStart_eq_size_iff (orig chng : Memory) (offset size : Nat) :
    findPatchStart orig chng offset size = size ↔
      ∀ i, offset ≤ i → i < offset + size → orig i = chng i := by
  obtain ⟨hle, hequal, hdiff⟩ := findPatchStart_spec orig chng offset size
  constructor
  · intro heq i hlow hhigh
    exact hequal i hlow (by omega)
  · intro hall
    by_contra hne
    obtain ⟨i, hlow, hhigh, hbyte⟩ := hdiff (by omega)
    exact hbyte (hall i (by omega) (by omega))

/-! ## The blocks that differ -/

/-- Position `i` is in a block that differs; the blocks of 8 bytes count from the start of the
window, and its end cuts the last one off. -/
def Rewritten (orig chng : Memory) (pos left i : Nat) : Prop :=
  pos ≤ i ∧ i < pos + left ∧
    ∃ j < pos + left, pos ≤ j ∧ (j - pos) / 8 = (i - pos) / 8 ∧ orig j ≠ chng j

instance (orig chng : Memory) (pos left i : Nat) :
    Decidable (Rewritten orig chng pos left i) :=
  inferInstanceAs (Decidable (_ ∧ _ ∧ _))

/-- A block of the window that differs is rewritten in the whole window. -/
theorem Rewritten.mono {orig chng : Memory} {pos left first count i : Nat}
    (hrewritten : Rewritten orig chng (pos + first) count i) (hdvd : 8 ∣ first)
    (hfits : first + count ≤ left) : Rewritten orig chng pos left i := by
  obtain ⟨hlow, hhigh, j, hjhigh, hjlow, hblock, hne⟩ := hrewritten
  exact ⟨by omega, by omega, j, by omega, by omega, by omega, hne⟩

theorem not_rewritten_of_equal {orig chng : Memory} {pos left i : Nat}
    (hequal : ∀ j, pos ≤ j → j < pos + left → orig j = chng j) :
    ¬ Rewritten orig chng pos left i := by
  rintro ⟨-, -, j, hhigh, hlow, -, hne⟩
  exact hne (hequal j hlow hhigh)

/-- What has been copied in front of a window does not matter for it. -/
theorem rewritten_copy_iff {orig chng : Memory} {pos count next left i : Nat}
    (hle : pos + count ≤ next) :
    Rewritten (copy orig chng pos count) chng next left i ↔ Rewritten orig chng next left i := by
  have hkeep : ∀ j, next ≤ j → copy orig chng pos count j = orig j := by
    intro j hj
    unfold copy
    rw [if_neg (by omega)]
  constructor
  · rintro ⟨hlow, hhigh, j, hjhigh, hjlow, hblock, hne⟩
    exact ⟨hlow, hhigh, j, hjhigh, hjlow, hblock, by rwa [hkeep j hjlow] at hne⟩
  · rintro ⟨hlow, hhigh, j, hjhigh, hjlow, hblock, hne⟩
    exact ⟨hlow, hhigh, j, hjhigh, hjlow, hblock, by rwa [hkeep j hjlow]⟩

/-- The memory with the blocks that differ rewritten. -/
def rewrite (orig chng : Memory) (pos left : Nat) (buf : Memory) : Memory :=
  fun i => if Rewritten orig chng pos left i then chng i else buf i

/-! ## The clone is brought up to date -/

/-- The loop over differing blocks copies a whole number of blocks and stops at
an equal block or in front of the tail; the counter has 32 bits. -/
theorem copyDiffering_wide (chng : Memory) (rounds : Nat) (orig : Memory)
    (pos c left : Nat) (hrounds : left ≤ rounds) (hc : c < 2 ^ 32) :
    ∃ count, count ≤ left ∧
      copyDiffering chng rounds orig pos c left =
        (copy orig chng pos count, pos + count, (c + count) % 2 ^ 32, left - count) ∧
      (left - count < 8 ∨ same orig chng (pos + count) 8 = true) ∧
      (8 ≤ left → same orig chng pos 8 = false → 0 < count) ∧ 8 ∣ count ∧
      ∀ i, pos ≤ i → i < pos + count → Rewritten orig chng pos count i := by
  have hmod : ∀ c < 2 ^ 32, (c + 0) % 2 ^ 32 = c := fun c hc => Nat.mod_eq_of_lt hc
  induction rounds generalizing orig pos c left with
  | zero =>
      have hleft : left = 0 := by omega
      subst hleft
      refine ⟨0, le_rfl, ?_, Or.inl (by omega), by omega, dvd_zero 8, by omega⟩
      rw [hmod c hc, copy_zero]
      rfl
  | succ rounds ih =>
      unfold copyDiffering
      split
      · case _ hdiffers =>
          -- the block differs and is copied
          obtain ⟨count, hcount, hresult, hend, -, hdvd, hblocks⟩ :=
            ih (copy orig chng pos 8) (pos + 8) ((c + 8) % 2 ^ 32) (left - 8)
              (by omega) (Nat.mod_lt _ (by decide))
          refine ⟨8 + count, by omega, ?_, ?_, fun _ _ => by omega, by omega,
            fun i hlow hhigh => ?_⟩
          · rw [hresult, copy_copy]
            have harith : pos + 8 + count = pos + (8 + count) ∧
                ((c + 8) % 2 ^ 32 + count) % 2 ^ 32 = (c + (8 + count)) % 2 ^ 32 ∧
                left - 8 - count = left - (8 + count) := by omega
            rw [harith.1, harith.2.1, harith.2.2]
          · rcases hend with hshort | hsame
            · left
              omega
            · right
              rw [same_copy_of_le (by omega)] at hsame
              rw [← hsame, Nat.add_assoc]
          · by_cases hfirst : i < pos + 8
            · obtain ⟨j, hjlow, hjhigh, hne⟩ :=
                (same_eq_false_iff _ _ _ _).mp (Bool.eq_false_iff.mpr hdiffers.2)
              exact ⟨hlow, by omega, j, by omega, hjlow, by omega, hne⟩
            · have hlater := hblocks i (by omega) (by omega)
              rw [rewritten_copy_iff le_rfl] at hlater
              exact hlater.mono (dvd_refl 8) le_rfl
      · case _ hstop =>
          -- an equal block, or the tail
          refine ⟨0, by omega, ?_, ?_, ?_, dvd_zero 8, by omega⟩
          · rw [hmod c hc, copy_zero]
            rfl
          · by_cases hroom : left ≥ 8
            · right
              by_contra hne
              exact hstop ⟨hroom, hne⟩
            · left
              omega
          · intro hroom hne
            exact absurd ⟨hroom, by simp [hne]⟩ hstop

/-- The loop over a window for which the counter is wide enough. -/
theorem copyDiffering_spec (chng : Memory) (rounds : Nat) (orig : Memory)
    (pos c left : Nat) (hrounds : left ≤ rounds) (hfits : c + left < 2 ^ 32) :
    ∃ count, count ≤ left ∧
      copyDiffering chng rounds orig pos c left =
        (copy orig chng pos count, pos + count, c + count, left - count) ∧
      (left - count < 8 ∨ same orig chng (pos + count) 8 = true) ∧ 8 ∣ count := by
  obtain ⟨count, hcount, hresult, hend, -, hdvd, -⟩ :=
    copyDiffering_wide chng rounds orig pos c left hrounds (by omega)
  rw [Nat.mod_eq_of_lt (show c + count < 2 ^ 32 by omega)] at hresult
  exact ⟨count, hcount, hresult, hend, hdvd⟩

/-- What one round of `write_patch` does: after the equal prefix it copies `c`
bytes to the clone; then either the rest of the window is equal as well, or
another round starts right behind the copied bytes. -/
structure Round (orig chng : Memory) (pos left identical c : Nat)
    (next : Memory × Nat × Nat) : Prop where
  fits : identical + c ≤ left
  equalPrefix : ∀ i, pos ≤ i → i < pos + identical → orig i = chng i
  clone : next.1 = copy orig chng (pos + identical) c
  rewritten : ∀ i, pos + identical ≤ i → i < pos + identical + c →
    Rewritten orig chng (pos + identical) c i
  prefix_dvd : identical < left → 8 ∣ identical
  count_dvd : identical + c < left → 8 ∣ c
  progress : (next.2.2 = 0 ∧
      ∀ i, pos + identical + c ≤ i → i < pos + left → orig i = chng i) ∨
    (next.2.1 = pos + identical + c ∧ next.2.2 = left - identical - c ∧ 0 < c)

/-- A round in a window of any size: it copies `count` bytes, up to an equal block or the end of
the window, and counts them in 32 bits. -/
theorem round_wide (chng orig : Memory) (pos left : Nat) :
    let identical := findPatchStart orig chng pos left
    let diff := copyDiffering chng left orig (pos + identical) 0 (left - identical)
    let tail := copyTail chng diff.1 diff.2.1 diff.2.2.1 diff.2.2.2
    ∃ count, Round orig chng pos left identical count (tail.1, diff.2.1, tail.2.2) ∧
      tail.2.1 = count % 2 ^ 32 ∧
      ∀ i, pos + identical + count ≤ i → i < pos + identical + count + 8 → i < pos + left →
        orig i = chng i := by
  obtain ⟨hle, hequal, hdiff⟩ := findPatchStart_spec orig chng pos left
  have hdvd : findPatchStart orig chng pos left < left → 8 ∣ findPatchStart orig chng pos left :=
    findPatchStart_dvd
  simp only
  generalize findPatchStart orig chng pos left = identical at *
  obtain ⟨count, hcount, hresult, hend, hprogress, hcountDvd, hblocks⟩ :=
    copyDiffering_wide chng left orig (pos + identical) 0 (left - identical)
      (by omega) (by decide)
  rw [hresult]
  simp only [Nat.zero_add]
  unfold copyTail
  split
  · case _ hshort =>
      split
      · case _ hsame =>
          have hrest : ∀ i, pos + identical + count ≤ i → i < pos + left → orig i = chng i := by
            intro i hlow hhigh
            have := (same_iff _ _ _ _).mp hsame i (by omega) (by omega)
            unfold copy at this
            rw [if_neg (by omega)] at this
            exact this.symm
          refine ⟨count, ⟨by omega, hequal, rfl, hblocks, hdvd, fun _ => hcountDvd,
            Or.inl ⟨rfl, hrest⟩⟩, rfl, fun i hlow _ hhigh => hrest i hlow hhigh⟩
      · case _ hdiffTail =>
          refine ⟨left - identical, ⟨by omega, hequal, ?_, fun i hlow hhigh => ?_, hdvd, by omega,
            Or.inl ⟨rfl, by omega⟩⟩, ?_, by omega⟩
          · show copy (copy orig chng (pos + identical) count) chng
              (pos + identical + count) (left - identical - count) = _
            rw [copy_copy]
            congr 1
            omega
          · by_cases hblock : i < pos + identical + count
            · have hrewritten : Rewritten orig chng (pos + identical + 0) count i :=
                hblocks i hlow hblock
              exact hrewritten.mono (dvd_zero 8) (by omega)
            · obtain ⟨j, hjlow, hjhigh, hne⟩ :=
                (same_eq_false_iff _ _ _ _).mp (Bool.eq_false_iff.mpr hdiffTail)
              unfold copy at hne
              rw [if_neg (by omega)] at hne
              exact ⟨hlow, hhigh, j, by omega, by omega, by omega, hne.symm⟩
          · show (count % 2 ^ 32 + (left - identical - count)) % 2 ^ 32 = _
            rw [Nat.mod_add_mod]
            congr 1
            omega
  · case _ hlong =>
      refine ⟨count, ⟨by omega, hequal, rfl, hblocks, hdvd, fun _ => hcountDvd,
        Or.inr ⟨rfl, rfl, ?_⟩⟩, rfl, fun i hlow hhigh _ => ?_⟩
      · -- at least one whole block is left, and the first one differs
        have hblock : same orig chng (pos + identical) 8 = false := by
          obtain ⟨i, hlow, hhigh, hne⟩ := hdiff (by omega)
          exact (same_eq_false_iff _ _ _ _).mpr ⟨i, hlow, by omega, hne⟩
        exact hprogress (by omega) hblock
      · rcases hend with hshort | hsame
        · exact absurd hshort hlong
        · exact (same_iff _ _ _ _).mp hsame i hlow hhigh

theorem round_spec (chng orig : Memory) (pos left : Nat)
    (hfits : left < 2 ^ 32) :
    let identical := findPatchStart orig chng pos left
    let diff := copyDiffering chng left orig (pos + identical) 0 (left - identical)
    let tail := copyTail chng diff.1 diff.2.1 diff.2.2.1 diff.2.2.2
    Round orig chng pos left identical tail.2.1 (tail.1, diff.2.1, tail.2.2) := by
  obtain ⟨count, hround, hcount, -⟩ := round_wide chng orig pos left
  have hfitsRound := hround.fits
  rw [Nat.mod_eq_of_lt (by omega)] at hcount
  rw [← hcount] at hround
  exact hround

/-- The part of the window that a round settles. -/
theorem Round.copy_eq {orig chng : Memory} {pos left identical c : Nat}
    {next : Memory × Nat × Nat}
    (hround : Round orig chng pos left identical c next) :
    next.1 = copy orig chng pos (identical + c) := by
  have hsame : same orig chng pos identical = true :=
    (same_iff _ _ _ _).mpr hround.equalPrefix
  rw [hround.clone, ← copy_copy, copy_of_same hsame]

/-- A window whose end is equal already is settled by copying its start. -/
theorem copy_of_equal_end {orig chng : Memory} {pos first left : Nat}
    (hle : first ≤ left)
    (hequal : ∀ i, pos + first ≤ i → i < pos + left → orig i = chng i) :
    copy orig chng pos first = copy orig chng pos left := by
  funext i
  unfold copy
  by_cases hfirst : pos ≤ i ∧ i < pos + first
  · rw [if_pos hfirst, if_pos (by omega)]
  · rw [if_neg hfirst]
    by_cases hall : pos ≤ i ∧ i < pos + left
    · rw [if_pos hall]
      exact hequal i (by omega) hall.2
    · rw [if_neg hall]

@[simp] theorem patchLoop_zero_left (chng : Memory) (rounds : Nat)
    (orig : Memory) (pos offset : Nat) :
    patchLoop chng rounds orig pos offset 0 = ([], orig, 0) := by
  cases rounds <;> simp [patchLoop]

/-- **The clone after the loop** equals the changed memory on the window and is
untouched elsewhere. -/
theorem patchLoop_clone (chng : Memory) (rounds : Nat) (orig : Memory)
    (pos offset left : Nat) (hrounds : left ≤ rounds)
    (hfits : left < 2 ^ 32) :
    (patchLoop chng rounds orig pos offset left).2.1 = copy orig chng pos left := by
  induction rounds generalizing orig pos offset left with
  | zero =>
      have hleft : left = 0 := by omega
      subst hleft
      simp [copy_zero]
  | succ rounds ih =>
      by_cases hzero : left = 0
      · subst hzero
        simp [copy_zero]
      · unfold patchLoop
        rw [if_neg hzero]
        have hround := round_spec chng orig pos left hfits
        simp only at hround ⊢
        generalize findPatchStart orig chng pos left = identical at *
        generalize copyDiffering chng left orig (pos + identical) 0
          (left - identical) = diff at *
        generalize copyTail chng diff.1 diff.2.1 diff.2.2.1 diff.2.2.2 = tail at *
        -- whatever the next offset is, the rest of the loop settles the rest
        have hrest : ∀ nextOffset,
            (patchLoop chng rounds tail.1 diff.2.1 nextOffset tail.2.2).2.1 =
              copy orig chng pos left := by
          intro nextOffset
          rcases hround.progress with ⟨hdone, hequal⟩ | ⟨hpos, hleft, hc⟩
          · simp only at hdone hequal
            rw [hdone, patchLoop_zero_left]
            simp only
            rw [hround.copy_eq]
            refine copy_of_equal_end hround.fits fun i hlow hhigh => ?_
            exact hequal i (by omega) hhigh
          · simp only at hpos hleft
            have hfits' := hround.fits
            rw [ih tail.1 diff.2.1 nextOffset tail.2.2 (by omega) (by omega),
              hround.copy_eq, hpos, hleft, Nat.add_assoc, copy_copy]
            congr 1
            omega
        split
        · exact hrest _
        · exact hrest _

/-! ## Reading a patch back -/

/-- `read_uint32_t` on a stored word. -/
theorem readUint32_encode {value : Nat} (hvalue : value < 2 ^ 32)
    (rest : List UInt8) :
    readUint32 (LittleEndian.encode 4 value ++ rest) = some (value, rest) := by
  have hlength : (LittleEndian.encode 4 value).length = 4 := by simp
  unfold readUint32
  rw [if_pos (by simp), List.take_left' hlength, List.drop_left' hlength,
    LittleEndian.decode_encode (by simpa using hvalue)]

/-- Reading one span. -/
theorem readPatchLoop_span {maxsize fuel position changed offset c : Nat}
    {buf : Memory} {payload rest : List UInt8} (hlength : payload.length = c)
    (hoffset : offset < 2 ^ 32) (hc : c < 2 ^ 32) (hpair : ¬ (offset = 0 ∧ c = 0))
    (hmax : maxsize = 0 ∨ position + offset + c ≤ maxsize) :
    readPatchLoop maxsize (fuel + 1) buf position changed
        (span offset c payload ++ rest) =
      readPatchLoop maxsize fuel (store buf (position + offset) payload)
        (position + offset + c) (changed + c) rest := by
  unfold span
  rw [List.append_assoc, List.append_assoc]
  conv_lhs => unfold readPatchLoop
  rw [readUint32_encode hoffset]
  simp only
  rw [if_pos (by omega), readUint32_encode hc]
  simp only
  rw [if_pos (by simp [hlength]), List.take_left' hlength, List.drop_left' hlength,
    if_pos hmax, if_neg hpair]

/-- Reading the terminator. -/
theorem readPatchLoop_terminator {maxsize fuel position changed : Nat}
    {buf : Memory} {rest : List UInt8} (hmax : maxsize = 0 ∨ position ≤ maxsize) :
    readPatchLoop maxsize (fuel + 1) buf position changed
        (LittleEndian.encode 4 0 ++ (LittleEndian.encode 4 0 ++ rest)) =
      some (buf, changed % 2 ^ 32, rest) := by
  have hstore : store buf position [] = buf := by
    funext i
    unfold store
    rw [if_neg (by simp)]
  unfold readPatchLoop
  rw [readUint32_encode (by norm_num)]
  simp only [Nat.add_zero]
  rw [if_pos hmax, readUint32_encode (by norm_num)]
  simp [hmax, hstore]

/-- The effect of a patch for the window `[pos, pos + left)` on another buffer:
each byte either becomes the changed one, or stays and was equal in the two
memories the patch was made from. -/
def Applied (orig chng : Memory) (pos left : Nat) (buf buf' : Memory) : Prop :=
  ∀ i, (buf' i = chng i ∧ pos ≤ i ∧ i < pos + left) ∨
    (buf' i = buf i ∧ (pos ≤ i → i < pos + left → orig i = chng i))

/-- A buffer that held the old bytes holds the changed ones afterwards. -/
theorem Applied.eq_changed {orig chng buf buf' : Memory} {pos left i : Nat}
    (happlied : Applied orig chng pos left buf buf')
    (hlow : pos ≤ i) (hhigh : i < pos + left) (hbuf : buf i = orig i) :
    buf' i = chng i := by
  rcases happlied i with ⟨hnew, -⟩ | ⟨hkeep, hequal⟩
  · exact hnew
  · rw [hkeep, hbuf, hequal hlow hhigh]

/-- Bytes outside the window stay. -/
theorem Applied.eq_outside {orig chng buf buf' : Memory} {pos left i : Nat}
    (happlied : Applied orig chng pos left buf buf')
    (hout : ¬ (pos ≤ i ∧ i < pos + left)) : buf' i = buf i := by
  rcases happlied i with ⟨-, hin⟩ | ⟨hkeep, -⟩
  · exact absurd hin hout
  · exact hkeep

/-- On a buffer that held the old bytes of the window a patch copies it. -/
theorem Applied.eq_copy {orig chng buf buf' : Memory} {pos left : Nat}
    (happlied : Applied orig chng pos left buf buf')
    (hagree : ∀ i, pos ≤ i → i < pos + left → buf i = orig i) :
    buf' = copy buf chng pos left := by
  funext i
  unfold copy
  split
  · case _ hin => exact happlied.eq_changed hin.1 hin.2 (hagree i hin.1 hin.2)
  · case _ hout => exact happlied.eq_outside hout

/-- What a round has to rewrite, and what the next ones have. -/
theorem Round.rewritten_iff {orig chng : Memory} {pos left identical c i : Nat}
    {next : Memory × Nat × Nat}
    (hround : Round orig chng pos left identical c next) :
    Rewritten orig chng pos left i ↔ (pos + identical ≤ i ∧ i < pos + identical + c) ∨
      Rewritten next.1 chng (pos + identical + c) (left - identical - c) i := by
  have hfits := hround.fits
  rw [hround.clone, rewritten_copy_iff le_rfl]
  constructor
  · rintro ⟨hlow, hhigh, j, hjhigh, hjlow, hblock, hne⟩
    have hj : pos + identical ≤ j := by
      by_contra hlt
      exact hne (hround.equalPrefix j hjlow (by omega))
    have hdvd := hround.prefix_dvd (by omega)
    by_cases hspan : i < pos + identical + c
    · exact Or.inl ⟨by omega, hspan⟩
    · have hcount := hround.count_dvd (by omega)
      exact Or.inr ⟨by omega, by omega, j, by omega, by omega, by omega, hne⟩
  · rintro (⟨hlow, hhigh⟩ | hlater)
    · exact (hround.rewritten i hlow hhigh).mono (hround.prefix_dvd (by omega)) hfits
    · have hlt : identical + c < left := by
        have := hlater.2.1
        have := hlater.1
        omega
      have hdvd := hround.prefix_dvd (by omega)
      have hcount := hround.count_dvd hlt
      rw [Nat.add_assoc] at hlater
      exact hlater.mono (dvd_add hdvd hcount) (by omega)

/-- One round rewrites its span, and leaves the rest to the next ones. -/
theorem Round.rewrite_eq {orig chng buf : Memory} {pos left identical c : Nat}
    {next : Memory × Nat × Nat}
    (hround : Round orig chng pos left identical c next) :
    rewrite orig chng pos left buf =
      rewrite next.1 chng (pos + identical + c) (left - identical - c)
        (copy buf chng (pos + identical) c) := by
  funext i
  unfold rewrite copy
  by_cases hlater : Rewritten next.1 chng (pos + identical + c) (left - identical - c) i
  · rw [if_pos hlater, if_pos (hround.rewritten_iff.mpr (Or.inr hlater))]
  · rw [if_neg hlater]
    by_cases hspan : pos + identical ≤ i ∧ i < pos + identical + c
    · rw [if_pos hspan, if_pos (hround.rewritten_iff.mpr (Or.inl hspan))]
    · rw [if_neg hspan, if_neg fun hrewritten =>
        (hround.rewritten_iff.mp hrewritten).elim hspan hlater]

theorem rewrite_of_equal {orig chng buf : Memory} {pos left : Nat}
    (hequal : ∀ j, pos ≤ j → j < pos + left → orig j = chng j) :
    rewrite orig chng pos left buf = buf := by
  funext i
  exact if_neg (not_rewritten_of_equal hequal)

/-- An equal part in front, of whole blocks, makes no difference. -/
theorem rewrite_skip {orig chng buf : Memory} {pos first left : Nat} (hle : first ≤ left)
    (hdvd : first < left → 8 ∣ first)
    (hequal : ∀ j, pos ≤ j → j < pos + first → orig j = chng j) :
    rewrite orig chng (pos + first) (left - first) buf = rewrite orig chng pos left buf := by
  funext i
  have hiff : Rewritten orig chng (pos + first) (left - first) i ↔
      Rewritten orig chng pos left i := by
    constructor
    · intro hlater
      have hlow := hlater.1
      have hhigh := hlater.2.1
      exact hlater.mono (hdvd (by omega)) (by omega)
    · rintro ⟨hlow, hhigh, j, hjhigh, hjlow, hblock, hne⟩
      have hj : pos + first ≤ j := by
        by_contra hlt
        exact hne (hequal j hjlow (by omega))
      have hfirst := hdvd (by omega)
      exact ⟨by omega, by omega, j, by omega, by omega, by omega, hne⟩
  unfold rewrite
  simp only [hiff]

/-- After the last round nothing is left to rewrite. -/
theorem Round.rewrite_done {orig chng buf : Memory} {pos left identical c : Nat}
    {next : Memory × Nat × Nat}
    (hround : Round orig chng pos left identical c next)
    (hequal : ∀ i, pos + identical + c ≤ i → i < pos + left → orig i = chng i) :
    rewrite orig chng pos left buf = copy buf chng (pos + identical) c := by
  have hfits := hround.fits
  rw [hround.rewrite_eq, hround.clone, rewrite_of_equal]
  intro j hlow hhigh
  unfold copy
  rw [if_neg (by omega)]
  exact hequal j hlow (by omega)

/-- **The spans of the loop, read back.**  The reader stands at `position`, the
next span starts `offset` bytes later at `pos`. -/
theorem readPatchLoop_patchLoop (chng : Memory) (maxsize rounds : Nat)
    (orig : Memory) (pos offset left : Nat) (hrounds : left ≤ rounds)
    (hfits : pos + left < 2 ^ 32) (hmax : maxsize = 0 ∨ pos + left ≤ maxsize)
    (buf : Memory) (position changed fuel : Nat) (rest : List UInt8)
    (hposition : position + offset = pos) :
    ∃ position',
      readPatchLoop maxsize
          ((patchLoop chng rounds orig pos offset left).1.length + fuel) buf
          position changed
          ((patchLoop chng rounds orig pos offset left).1.flatten ++ rest) =
        readPatchLoop maxsize fuel (rewrite orig chng pos left buf) position'
          (changed + (patchLoop chng rounds orig pos offset left).2.2) rest ∧
      position' ≤ pos + left := by
  induction rounds generalizing orig pos offset left buf position changed with
  | zero =>
      have hleft : left = 0 := by omega
      subst hleft
      rw [rewrite_of_equal (by omega)]
      exact ⟨position, by simp, by omega⟩
  | succ rounds ih =>
      by_cases hzero : left = 0
      · subst hzero
        rw [rewrite_of_equal (by omega)]
        exact ⟨position, by simp, by omega⟩
      · unfold patchLoop
        rw [if_neg hzero]
        have hround := round_spec chng orig pos left (by omega)
        simp only at hround ⊢
        generalize findPatchStart orig chng pos left = identical at *
        generalize copyDiffering chng left orig (pos + identical) 0
          (left - identical) = diff at *
        generalize copyTail chng diff.1 diff.2.1 diff.2.2.1 diff.2.2.2 = tail at *
        have hfitsRound := hround.fits
        have hmod : (offset + identical) % 2 ^ 32 = offset + identical :=
          Nat.mod_eq_of_lt (by omega)
        rw [hmod]
        by_cases hc : tail.2.1 = 0
        · -- nothing to emit: the whole window was equal
          rw [if_neg (by simp [hc])]
          rcases hround.progress with ⟨hdone, hequal⟩ | ⟨-, -, hpos⟩
          · simp only at hdone hequal
            rw [hdone, patchLoop_zero_left, hround.rewrite_done hequal, hc, copy_zero]
            exact ⟨position, by simp, by omega⟩
          · omega
        · -- a span is emitted: its offset, its size and its bytes
          rw [if_pos hc]
          simp only [List.length_cons, List.flatten_cons, List.append_assoc]
          rw [show ∀ n, n + 1 + fuel = (n + fuel) + 1 by omega,
            readPatchLoop_span (by simp) (by omega) (by omega) (by omega)
              (by omega),
            show position + (offset + identical) = pos + identical by omega,
            store_slice]
          rcases hround.progress with ⟨hdone, hequal⟩ | ⟨hpos, hleft, -⟩
          · simp only at hdone hequal
            rw [hdone, patchLoop_zero_left, hround.rewrite_done hequal]
            exact ⟨pos + identical + tail.2.1, by simp, by omega⟩
          · -- another round starts right behind the copied bytes
            simp only at hpos hleft
            obtain ⟨position', hread, hle⟩ :=
              ih tail.1 diff.2.1 0 tail.2.2 (by omega) (by omega) (by omega)
                (copy buf chng (pos + identical) tail.2.1)
                (pos + identical + tail.2.1) (changed + tail.2.1) (by omega)
            refine ⟨position', ?_, by omega⟩
            rw [hread, Nat.add_assoc, hround.rewrite_eq, hpos, hleft]

/-! ## The patch as a whole -/

/-- **The clone after `write_patch`.** -/
theorem writePatch_clone (orig chng : Memory) (offset size : Nat)
    (hfits : offset + size < 2 ^ 32) :
    (writePatch orig chng offset size).clone = copy orig chng offset size := by
  unfold writePatch
  simp only
  rw [Nat.mod_eq_of_lt (by omega)]
  exact patchLoop_clone chng size orig offset offset size le_rfl (by omega)

theorem patchLoop_length_le (chng : Memory) (rounds : Nat) (orig : Memory)
    (pos offset left : Nat) :
    (patchLoop chng rounds orig pos offset left).1.length ≤
      (patchLoop chng rounds orig pos offset left).1.flatten.length := by
  induction rounds generalizing orig pos offset left with
  | zero => simp [patchLoop]
  | succ rounds ih =>
      unfold patchLoop
      split
      · simp
      · simp only
        split
        · simp only [List.length_cons, List.flatten_cons, List.length_append,
            span, LittleEndian.encode_length]
          have := ih
          refine le_trans (Nat.add_le_add_right (ih _ _ _ _) 1) ?_
          omega
        · exact ih _ _ _ _

/-- **Patch round trip.**  Reading the bytes of a patch rewrites the blocks that
differ, returns the number `write_patch` returned and leaves exactly the bytes
behind the patch. -/
theorem readPatch_writePatch_rewrite (orig chng buf : Memory)
    (offset size maxsize : Nat) (rest : List UInt8)
    (hfits : offset + size < 2 ^ 32)
    (hmax : maxsize = 0 ∨ offset + size ≤ maxsize) :
    readPatch buf maxsize ((writePatch orig chng offset size).bytes ++ rest) =
      some (rewrite orig chng offset size buf,
        (writePatch orig chng offset size).changed % 2 ^ 32, rest) := by
  have hmod : offset % 2 ^ 32 = offset := Nat.mod_eq_of_lt (by omega)
  unfold readPatch Written.bytes writePatch
  simp only [hmod, List.flatten_append, List.flatten_cons, List.flatten_nil,
    List.append_nil, List.append_assoc]
  have hcount := patchLoop_length_le chng size orig offset offset size
  obtain ⟨fuel, hfuel⟩ : ∃ fuel,
      ((patchLoop chng size orig offset offset size).1.flatten ++
        (LittleEndian.encode 4 0 ++ (LittleEndian.encode 4 0 ++ rest))).length + 1 =
      (patchLoop chng size orig offset offset size).1.length + (fuel + 1) := by
    refine ⟨((patchLoop chng size orig offset offset size).1.flatten ++
        (LittleEndian.encode 4 0 ++ (LittleEndian.encode 4 0 ++ rest))).length -
      (patchLoop chng size orig offset offset size).1.length, ?_⟩
    simp only [List.length_append]
    omega
  rw [hfuel]
  obtain ⟨position', hread, hle⟩ :=
    readPatchLoop_patchLoop chng maxsize size orig offset offset size le_rfl hfits
      hmax buf 0 0 (fuel + 1)
      (LittleEndian.encode 4 0 ++ (LittleEndian.encode 4 0 ++ rest)) (by omega)
  rw [hread, readPatchLoop_terminator (by omega), Nat.zero_add]

/-- The blocks that are not rewritten are equal. -/
theorem applied_rewrite (orig chng : Memory) (pos left : Nat) (buf : Memory) :
    Applied orig chng pos left buf (rewrite orig chng pos left buf) := by
  intro i
  unfold rewrite
  by_cases hrewritten : Rewritten orig chng pos left i
  · rw [if_pos hrewritten]
    exact Or.inl ⟨rfl, hrewritten.1, hrewritten.2.1⟩
  · rw [if_neg hrewritten]
    refine Or.inr ⟨rfl, fun hlow hhigh => ?_⟩
    by_contra hne
    exact hrewritten ⟨hlow, hhigh, i, hhigh, hlow, rfl, hne⟩

end Patch
end Lavatube
