import Lavatube.FileWriter
import Lavatube.HostWriteRegions

/-!
# Patches and memory spans in the stream

`write_patch` and `write_memory_span` put spans into the stream through the chunks
of `file_writer`, and `read_patch` takes them out again.  The tools read update
packets with `read_patch_tracking`, a second copy of that loop that counts with a
pointer and registers what it has written with the `host_write_regions` of the object.

A span is one block of `8 + c` bytes, and this sum is a `uint32_t`.

* `Stream` — what a writer has handed over and what it still holds.
* `spans` — the ranges that a patch covers.
* `patch_round_trip_iff` — `write_patch`, read back.
* `memory_span_round_trip_iff` — `write_memory_span`, read back.
* `tracking_agrees` — the two loops, and what is registered.
-/

namespace Lavatube
namespace PatchStream

open ByteMemory Patch FileWriter Transition HostWriteRegions

/-! ## Blocks in the stream -/

/-- A writer and the bytes that it has handed over. -/
structure Stream where
  done : List UInt8
  writer : Writer

/-- The bytes of the stream so far. -/
def Stream.bytes (s : Stream) : List UInt8 := s.done ++ s.writer.pending

/-- The writer is in a state that it can be in. -/
def Stream.WF (s : Stream) : Prop := s.writer.WF s.done.length

/-- One operation of the writer. -/
def step (s : Stream) (op : Op) : Option Stream :=
  (op.run s.writer).map fun result => ⟨s.done ++ content result.2.chunks, result.1⟩

/-- A block whose length fits the 32-bit argument of `check_space` is appended. -/
theorem step_block {s : Stream} (hwf : s.WF) {bytes : List UInt8}
    (hlength : bytes.length < 2 ^ 32) :
    ∃ next, step s (.block bytes) = some next ∧ next.WF ∧ next.bytes = s.bytes ++ bytes := by
  have hrun : (Op.block bytes).run s.writer = some (writeBlock s.writer bytes) := if_pos hlength
  obtain ⟨hnext, hbytes⟩ := Op.run_spec hwf hrun
  exact ⟨⟨_, _⟩, by rw [step, hrun]; rfl, hnext, hbytes⟩

/-- Blocks are appended one after the other, whatever the size of the chunks. -/
theorem exec_blocks {s : Stream} (hwf : s.WF) {pieces : List (List UInt8)}
    (hlength : ∀ piece ∈ pieces, piece.length < 2 ^ 32) :
    ∃ next, exec step s (pieces.map .block) = some next ∧ next.WF ∧
      next.bytes = s.bytes ++ pieces.flatten := by
  induction pieces generalizing s with
  | nil => exact ⟨s, rfl, hwf, by simp⟩
  | cons piece rest ih =>
      rw [List.forall_mem_cons] at hlength
      obtain ⟨middle, hstep, hmiddle, hbytes⟩ := step_block hwf hlength.1
      obtain ⟨next, hexec, hnext, hrest⟩ := ih hmiddle hlength.2
      refine ⟨next, exec_cons_eq_some_iff.mpr ⟨middle, hstep, hexec⟩, hnext, ?_⟩
      rw [hrest, hbytes, List.flatten_cons, List.append_assoc]

/-- A block that is longer passes `check_space` with its length cut off and is
written past the end of the chunk. -/
theorem exec_blocks_eq_none (s : Stream) {pieces : List (List UInt8)}
    (hlong : ∃ piece ∈ pieces, 2 ^ 32 ≤ piece.length) :
    exec step s (pieces.map .block) = none := by
  induction pieces generalizing s with
  | nil =>
      obtain ⟨piece, hpiece, -⟩ := hlong
      cases hpiece
  | cons piece rest ih =>
      rw [List.map_cons, exec]
      by_cases hfirst : piece.length < 2 ^ 32
      · obtain ⟨later, hlater, hlength⟩ := hlong
        have hrest : later ∈ rest := by
          refine (List.mem_cons.mp hlater).resolve_left ?_
          rintro rfl
          omega
        cases step s (.block piece) with
        | none => rfl
        | some next => exact ih next ⟨later, hrest, hlength⟩
      · have hrun : (Op.block piece).run s.writer = none := if_neg hfirst
        rw [step, hrun]
        rfl

/-! ## The ranges of a patch -/

/-- The spans from a position on, up to the pair of zeros that ends the patch. -/
def spansLoop : Nat → Nat → List UInt8 → List (Nat × Nat)
  | 0, _, _ => []
  | rounds + 1, position, input =>
      match readUint32 input with
      | none => []
      | some (offset, input) =>
          match readUint32 input with
          | none => []
          | some (size, input) =>
              if offset = 0 ∧ size = 0 then []
              else
                (position + offset, size) ::
                  spansLoop rounds (position + offset + size) (input.drop size)

/-- The position and the length of each span of a patch. -/
def spans (input : List UInt8) : List (Nat × Nat) := spansLoop (input.length + 1) 0 input

/-- Position `i` is in one of the spans. -/
def InSpans (l : List (Nat × Nat)) (i : Nat) : Prop :=
  ∃ span ∈ l, span.1 ≤ i ∧ i < span.1 + span.2

instance (l : List (Nat × Nat)) (i : Nat) : Decidable (InSpans l i) :=
  inferInstanceAs (Decidable (∃ span ∈ l, _))

@[simp] theorem not_inSpans_nil (i : Nat) : ¬ InSpans [] i := by
  simp [InSpans]

theorem inSpans_cons {span : Nat × Nat} {l : List (Nat × Nat)} {i : Nat} :
    InSpans (span :: l) i ↔ (span.1 ≤ i ∧ i < span.1 + span.2) ∨ InSpans l i := by
  simp [InSpans]

/-- A patch covers position `i`. -/
def Covered (input : List UInt8) (i : Nat) : Prop := InSpans (spans input) i

instance (input : List UInt8) (i : Nat) : Decidable (Covered input i) :=
  inferInstanceAs (Decidable (InSpans _ i))

/-- **One round of `read_patch`.**  It reads a pair and the bytes of the span; the
pair of zeros ends the patch. -/
theorem readPatchLoop_eq_some {maxsize rounds position changed count : Nat}
    {buf buf' : Memory} {input rest : List UInt8}
    (hread : readPatchLoop maxsize (rounds + 1) buf position changed input =
      some (buf', count, rest)) :
    ∃ offset size afterOffset afterSize,
      readUint32 input = some (offset, afterOffset) ∧
      readUint32 afterOffset = some (size, afterSize) ∧
      (maxsize = 0 ∨ position + offset + size ≤ maxsize) ∧ size ≤ afterSize.length ∧
      ((offset = 0 ∧ size = 0 ∧ buf' = buf ∧ count = changed % 2 ^ 32 ∧ rest = afterSize) ∨
        (¬ (offset = 0 ∧ size = 0) ∧
          readPatchLoop maxsize rounds
            (store buf (position + offset) (afterSize.take size)) (position + offset + size)
            (changed + size) (afterSize.drop size) = some (buf', count, rest))) := by
  unfold readPatchLoop at hread
  split at hread
  · cases hread
  · case _ offset afterOffset hoffset =>
      simp only at hread
      split at hread
      · split at hread
        · cases hread
        · case _ size afterSize hsize =>
            split at hread
            · case _ hlength =>
                split at hread
                · case _ hmax =>
                    refine ⟨offset, size, afterOffset, afterSize, hoffset, hsize, hmax,
                      hlength, ?_⟩
                    split at hread
                    · case _ hend =>
                        obtain ⟨rfl, rfl⟩ := hend
                        cases hread
                        refine Or.inl ⟨rfl, rfl, ?_, rfl, rfl⟩
                        funext i
                        unfold store
                        rw [if_neg (by simp)]
                    · case _ hmore => exact Or.inr ⟨hmore, hread⟩
                · cases hread
            · cases hread
      · cases hread

/-- The spans of one round. -/
theorem spansLoop_succ {rounds position offset size : Nat}
    {input afterOffset afterSize : List UInt8}
    (hoffset : readUint32 input = some (offset, afterOffset))
    (hsize : readUint32 afterOffset = some (size, afterSize)) :
    spansLoop (rounds + 1) position input =
      if offset = 0 ∧ size = 0 then []
      else
        (position + offset, size) ::
          spansLoop rounds (position + offset + size) (afterSize.drop size) := by
  rw [spansLoop]
  simp only [hoffset, hsize]

/-- A byte outside the spans is not written. -/
theorem readPatchLoop_frame {maxsize rounds position changed count : Nat}
    {buf buf' : Memory} {input rest : List UInt8}
    (hread : readPatchLoop maxsize rounds buf position changed input =
      some (buf', count, rest))
    {i : Nat} (hout : ¬ InSpans (spansLoop rounds position input) i) : buf' i = buf i := by
  induction rounds generalizing buf position changed input with
  | zero => cases hread
  | succ rounds ih =>
      obtain ⟨offset, size, afterOffset, afterSize, hoffset, hsize, -, hlength, hcase⟩ :=
        readPatchLoop_eq_some hread
      rcases hcase with ⟨-, -, hbuf, -⟩ | ⟨hmore, hrest⟩
      · rw [hbuf]
      · rw [spansLoop_succ hoffset hsize, if_neg hmore, inSpans_cons, not_or] at hout
        rw [ih hrest hout.2]
        unfold store
        rw [List.length_take_of_le hlength, if_neg hout.1]

/-- **A byte that a patch does not cover stays.** -/
theorem readPatch_frame {maxsize count : Nat} {buf buf' : Memory} {input rest : List UInt8}
    (hread : readPatch buf maxsize input = some (buf', count, rest)) {i : Nat}
    (hout : ¬ Covered input i) : buf' i = buf i :=
  readPatchLoop_frame hread hout

/-! ## `write_patch`, read back -/

/-- The window starts with so many blocks that differ that they make one span of at
least `2 ^ 32 - 8` bytes; `8 + c` does not fit 32 bits then. -/
def Overlong (orig chng : Memory) (pos left : Nat) : Prop :=
  2 ^ 32 - 8 ≤ left ∧ ∀ k < 2 ^ 29 - 1, same orig chng (pos + 8 * k) 8 = false

/-- No loop counts more than its window, and no span is longer. -/
theorem patchLoop_bounds (chng : Memory) (rounds : Nat) (orig : Memory)
    (pos offset left : Nat) (hfits : left < 2 ^ 32) :
    (patchLoop chng rounds orig pos offset left).2.2 ≤ left ∧
      ∀ piece ∈ (patchLoop chng rounds orig pos offset left).1, piece.length ≤ 8 + left := by
  induction rounds generalizing orig pos offset left with
  | zero => simp [patchLoop]
  | succ rounds ih =>
      by_cases hzero : left = 0
      · subst hzero
        simp
      · unfold patchLoop
        rw [if_neg hzero]
        have hround := round_spec chng orig pos left hfits
        simp only at hround ⊢
        generalize findPatchStart orig chng pos left = identical at *
        generalize copyDiffering chng left orig (pos + identical) 0
          (left - identical) = diff at *
        generalize copyTail chng diff.1 diff.2.1 diff.2.2.1 diff.2.2.2 = tail at *
        have hround_fits := hround.fits
        -- what is left for the next round, whichever offset it starts with
        have hleft : tail.2.2 ≤ left - identical - tail.2.1 := by
          rcases hround.progress with ⟨hdone, -⟩ | ⟨-, hnext, -⟩
          · simp only at hdone
            omega
          · exact hnext.le
        have hrest := fun nextOffset =>
          ih tail.1 diff.2.1 nextOffset tail.2.2 (by omega)
        split
        · obtain ⟨hchanged, hpieces⟩ := hrest 0
          refine ⟨by simp only; omega, fun piece hpiece => ?_⟩
          rcases List.mem_cons.mp hpiece with rfl | hpiece
          · simp only [span, List.length_append, LittleEndian.encode_length, slice_length]
            omega
          · have := hpieces piece hpiece
            omega
        · obtain ⟨hchanged, hpieces⟩ := hrest ((offset + identical) % 2 ^ 32)
          refine ⟨by omega, fun piece hpiece => ?_⟩
          have := hpieces piece hpiece
          omega

/-- The blocks at the start of a window that differ are in its first span. -/
theorem le_copyTail_of_overlong {orig chng : Memory} {pos left : Nat} (hfits : left < 2 ^ 32)
    (hlong : Overlong orig chng pos left) :
    findPatchStart orig chng pos left = 0 ∧
      2 ^ 32 - 8 ≤ (copyTail chng (copyDiffering chng left orig pos 0 left).1
        (copyDiffering chng left orig pos 0 left).2.1
        (copyDiffering chng left orig pos 0 left).2.2.1
        (copyDiffering chng left orig pos 0 left).2.2.2).2.1 := by
  obtain ⟨hleft, hblocks⟩ := hlong
  constructor
  · obtain ⟨hle, hequal, -⟩ := findPatchStart_spec orig chng pos left
    obtain ⟨j, hlow, hhigh, hne⟩ := (same_eq_false_iff _ _ _ _).mp (hblocks 0 (by decide))
    have hstart : findPatchStart orig chng pos left < 8 := by
      by_contra hge
      exact hne (hequal j (by omega) (by omega))
    have hdvd : 8 ∣ findPatchStart orig chng pos left := findPatchStart_dvd (by omega)
    omega
  · obtain ⟨count, hcount, hresult, hend, hdvd⟩ :=
      copyDiffering_spec chng left orig pos 0 left le_rfl (by omega)
    have hlow : 2 ^ 32 - 8 ≤ count := by
      by_contra hlt
      rcases hend with hshort | hsame
      · omega
      · -- the loop does not stop at a block that differs
        have hblock := hblocks (count / 8) (by omega)
        rw [Nat.mul_div_cancel' hdvd, Bool.eq_false_iff] at hblock
        exact hblock hsame
    rw [hresult]
    unfold copyTail
    simp only [Nat.zero_add]
    split
    · split
      · exact hlow
      · rw [Nat.mod_eq_of_lt (by omega)]
        exact hlow.trans (Nat.le_add_right _ _)
    · exact hlow

/-- Exactly the windows that start with so many blocks give a piece whose length does
not fit 32 bits. -/
theorem overlong_iff (chng : Memory) (rounds : Nat) (orig : Memory)
    (pos offset left : Nat) (hrounds : left ≤ rounds) (hfits : left < 2 ^ 32) :
    (∃ piece ∈ (patchLoop chng rounds orig pos offset left).1, 2 ^ 32 ≤ piece.length) ↔
      Overlong orig chng pos left := by
  constructor
  · rintro ⟨piece, hpiece, hlength⟩
    -- only the first span of a whole window can be so long
    obtain ⟨rounds, rfl⟩ : ∃ more, rounds = more + 1 := by
      refine ⟨rounds - 1, ?_⟩
      rcases Nat.eq_zero_or_pos rounds with rfl | hpos
      · cases hpiece
      · omega
    by_cases hzero : left = 0
    · subst hzero
      simp at hpiece
    · unfold patchLoop at hpiece
      rw [if_neg hzero] at hpiece
      have hround := round_spec chng orig pos left hfits
      simp only at hround hpiece
      generalize findPatchStart orig chng pos left = identical at *
      generalize copyDiffering chng left orig (pos + identical) 0
        (left - identical) = diff at *
      generalize copyTail chng diff.1 diff.2.1 diff.2.2.1 diff.2.2.2 = tail at *
      have hround_fits := hround.fits
      -- the rounds behind the first one have at least a block less to scan
      have hlater : ∀ nextOffset,
          piece ∉ (patchLoop chng rounds tail.1 diff.2.1 nextOffset tail.2.2).1 := by
        intro nextOffset hmem
        rcases hround.progress with ⟨hdone, -⟩ | ⟨-, hnext, hpos⟩
        · simp only at hdone
          rw [hdone, patchLoop_zero_left] at hmem
          cases hmem
        · simp only at hnext
          have hbound := (patchLoop_bounds chng rounds tail.1 diff.2.1 nextOffset tail.2.2
            (by omega)).2 piece hmem
          have hblock := hround.count_dvd (by omega)
          omega
      split at hpiece
      · rcases List.mem_cons.mp hpiece with rfl | hpiece
        · simp only [span, List.length_append, LittleEndian.encode_length,
            slice_length] at hlength
          have hprefix : identical = 0 := by
            have := hround.prefix_dvd (by omega)
            omega
          subst hprefix
          refine ⟨by omega, fun k hk => ?_⟩
          obtain ⟨-, -, j, hhigh, hlow, hblock, hne⟩ :=
            hround.rewritten (pos + 8 * k) (by omega) (by omega)
          exact (same_eq_false_iff _ _ _ _).mpr ⟨j, by omega, by omega, hne⟩
        · exact (hlater _ hpiece).elim
      · exact (hlater _ hpiece).elim
  · intro hlong
    obtain ⟨hstart, hcount⟩ := le_copyTail_of_overlong hfits hlong
    have hleft := hlong.1
    obtain ⟨rounds, rfl⟩ : ∃ more, rounds = more + 1 := ⟨rounds - 1, by omega⟩
    unfold patchLoop
    rw [if_neg (by omega)]
    simp only [hstart, Nat.add_zero, Nat.sub_zero]
    generalize copyDiffering chng left orig pos 0 left = diff at *
    generalize copyTail chng diff.1 diff.2.1 diff.2.2.1 diff.2.2.2 = tail at *
    rw [if_pos (by omega)]
    refine ⟨_, List.mem_cons_self, ?_⟩
    simp only [span, List.length_append, LittleEndian.encode_length, slice_length]
    omega

/-- What `write_patch` is for: in any writer it appends one and the same patch to the
stream and brings the clone up to date; the patch takes a copy of the old clone to
the new one, with the same count on both sides and no byte read too many or too few,
and what it does not cover was equal. -/
def PatchRoundTrips (orig chng : Memory) (offset size : Nat) : Prop :=
  ∃ patch,
    (∀ s : Stream, s.WF → ∃ next, exec step s (writePatchOps orig chng offset size) = some next ∧
      next.WF ∧ next.bytes = s.bytes ++ patch) ∧
    (∀ i, (writePatch orig chng offset size).clone i =
      if offset ≤ i ∧ i < offset + size then chng i else orig i) ∧
    (∀ maxsize rest, maxsize = 0 ∨ offset + size ≤ maxsize →
      readPatch orig maxsize (patch ++ rest) =
        some ((writePatch orig chng offset size).clone,
          (writePatch orig chng offset size).changed, rest)) ∧
    ∀ i, offset ≤ i → i < offset + size → ¬ Covered patch i → orig i = chng i

theorem roundTrips_of_not_overlong {orig chng : Memory} {offset size : Nat}
    (hfits : offset + size < 2 ^ 32) (hshort : ¬ Overlong orig chng offset size) :
    PatchRoundTrips orig chng offset size := by
  have hclone := writePatch_clone orig chng offset size hfits
  have hmod : offset % 2 ^ 32 = offset := Nat.mod_eq_of_lt (by omega)
  have hchanged : (writePatch orig chng offset size).changed % 2 ^ 32 =
      (writePatch orig chng offset size).changed := by
    refine Nat.mod_eq_of_lt (lt_of_le_of_lt (b := size) ?_ (by omega))
    exact (patchLoop_bounds chng size orig (offset % 2 ^ 32) (offset % 2 ^ 32) size
      (by omega)).1
  have hpieces : ∀ piece ∈ (writePatch orig chng offset size).pieces,
      piece.length < 2 ^ 32 := by
    intro piece hpiece
    unfold writePatch at hpiece
    rw [hmod] at hpiece
    rcases List.mem_append.mp hpiece with hspan | hend
    · by_contra hlong
      exact hshort ((overlong_iff chng size orig offset offset size le_rfl (by omega)).mp
        ⟨piece, hspan, by omega⟩)
    · have hword : piece.length = 4 := by
        simp only [List.mem_cons, List.not_mem_nil, or_false, or_self] at hend
        rw [hend, LittleEndian.encode_length]
      omega
  have hread : ∀ maxsize rest, maxsize = 0 ∨ offset + size ≤ maxsize →
      readPatch orig maxsize ((writePatch orig chng offset size).bytes ++ rest) =
        some ((writePatch orig chng offset size).clone,
          (writePatch orig chng offset size).changed, rest) := by
    intro maxsize rest hmax
    rw [readPatch_writePatch_rewrite orig chng orig offset size maxsize rest hfits hmax,
      hchanged, hclone,
      (applied_rewrite orig chng offset size orig).eq_copy fun _ _ _ => rfl]
  refine ⟨(writePatch orig chng offset size).bytes, fun s hwf => ?_, fun i => ?_, hread,
    fun i hlow hhigh hout => ?_⟩
  · exact exec_blocks hwf hpieces
  · rw [hclone]
    rfl
  · have hplain := hread 0 [] (Or.inl rfl)
    rw [List.append_nil] at hplain
    have hkeep := readPatch_frame hplain hout
    rw [hclone] at hkeep
    unfold copy at hkeep
    rw [if_pos ⟨hlow, hhigh⟩] at hkeep
    exact hkeep.symm

theorem not_roundTrips_of_overlong {orig chng : Memory} {offset size : Nat}
    (hfits : offset + size < 2 ^ 32) (hlong : Overlong orig chng offset size) :
    ¬ PatchRoundTrips orig chng offset size := by
  rintro ⟨patch, hwrite, -⟩
  have hmod : offset % 2 ^ 32 = offset := Nat.mod_eq_of_lt (by omega)
  obtain ⟨piece, hpiece, hlength⟩ :=
    (overlong_iff chng size orig offset offset size le_rfl (by omega)).mpr hlong
  have hmem : piece ∈ (writePatch orig chng offset size).pieces := by
    unfold writePatch
    rw [hmod]
    exact List.mem_append_left _ hpiece
  obtain ⟨next, hexec, -⟩ := hwrite ⟨[], Writer.new 1⟩ (Writer.wf_new 1)
  rw [writePatchOps, exec_blocks_eq_none _ ⟨piece, hmem, hlength⟩] at hexec
  cases hexec

/-- **Patch round trip.**  It holds exactly for the windows whose first span leaves
room for its two words in 32 bits. -/
theorem patch_round_trip_iff (orig chng : Memory) (offset size : Nat)
    (hfits : offset + size < 2 ^ 32) :
    PatchRoundTrips orig chng offset size ↔
      ¬ (2 ^ 32 - 8 ≤ size ∧ ∀ k < 2 ^ 29 - 1, same orig chng (offset + 8 * k) 8 = false) := by
  constructor
  · intro hround hlong
    exact not_roundTrips_of_overlong hfits hlong hround
  · exact roundTrips_of_not_overlong hfits

/-- One byte in the middle of a window, and a window that ends in an odd tail. -/
theorem patch_round_trip_small :
    PatchRoundTrips zeroed (fun i => if i = 12 ∨ i = 18 then 7 else 0) 3 17 := by
  refine (patch_round_trip_iff _ _ 3 17 (by decide)).mpr ?_
  rintro ⟨hsize, -⟩
  exact absurd hsize (by decide)

/-- A window of `2 ^ 32 - 8` bytes all of which have changed. -/
theorem not_roundTrips_of_full_window :
    ¬ PatchRoundTrips zeroed (fun _ => 1) 0 (2 ^ 32 - 8) := by
  refine not_roundTrips_of_overlong (by decide) ⟨le_rfl, fun k _ => ?_⟩
  exact (same_eq_false_iff _ _ _ _).mpr ⟨0 + 8 * k, le_rfl, by omega,
    (show (0 : UInt8) ≠ 1 by decide)⟩

/-! ## `write_memory_span`, read back -/

/-- What `write_memory_span` is for: in any writer it appends one and the same bytes to
the stream, and one call of `read_patch` on them puts the payload at the offset of the
destination, returns its length and leaves what follows. -/
def SpanRoundTrips (ptr : Memory) (offset size : Nat) : Prop :=
  ∃ bytes,
    (∀ s : Stream, s.WF → ∃ next,
      exec step s (writeMemorySpan offset (slice ptr 0 size)) = some next ∧ next.WF ∧
        next.bytes = s.bytes ++ bytes) ∧
    ∀ buf maxsize rest, maxsize = 0 ∨ offset + size ≤ maxsize →
      readPatch buf maxsize (bytes ++ rest) =
        some (store buf offset (slice ptr 0 size), size, rest)

/-- The blocks of `write_memory_span`. -/
def memorySpanPieces (offset : Nat) (payload : List UInt8) : List (List UInt8) :=
  [LittleEndian.encode 4 offset, LittleEndian.encode 4 payload.length, payload,
    LittleEndian.encode 4 0, LittleEndian.encode 4 0]

theorem memorySpanPieces_flatten (offset : Nat) (payload rest : List UInt8) :
    (memorySpanPieces offset payload).flatten ++ rest =
      span offset payload.length payload ++
        (LittleEndian.encode 4 0 ++ (LittleEndian.encode 4 0 ++ rest)) := by
  simp [memorySpanPieces, span]

theorem exec_writeMemorySpan {s : Stream} (hwf : s.WF) (offset : Nat) {payload : List UInt8}
    (hlength : payload.length < 2 ^ 32) :
    ∃ next, exec step s (writeMemorySpan offset payload) = some next ∧ next.WF ∧
      next.bytes = s.bytes ++ (memorySpanPieces offset payload).flatten := by
  have hpieces : ∀ piece ∈ memorySpanPieces offset payload, piece.length < 2 ^ 32 := by
    simp only [memorySpanPieces, List.forall_mem_cons, LittleEndian.encode_length]
    exact ⟨by omega, by omega, hlength, by omega, by omega, by simp⟩
  exact exec_blocks hwf hpieces

/-- **A memory span is read back**, unless it is empty and at offset zero. -/
theorem readPatch_memorySpan {buf : Memory} {offset maxsize : Nat} {payload rest : List UInt8}
    (hoffset : offset < 2 ^ 32) (hlength : payload.length < 2 ^ 32)
    (hmax : maxsize = 0 ∨ offset + payload.length ≤ maxsize)
    (hpair : ¬ (offset = 0 ∧ payload.length = 0)) :
    readPatch buf maxsize ((memorySpanPieces offset payload).flatten ++ rest) =
      some (store buf offset payload, payload.length, rest) := by
  obtain ⟨fuel, hfuel⟩ : ∃ fuel,
      ((memorySpanPieces offset payload).flatten ++ rest).length + 1 = fuel + 1 + 1 := by
    refine ⟨((memorySpanPieces offset payload).flatten ++ rest).length - 1, ?_⟩
    simp only [memorySpanPieces_flatten, span, List.length_append, LittleEndian.encode_length]
    omega
  unfold readPatch
  rw [hfuel, memorySpanPieces_flatten, readPatchLoop_span rfl hoffset hlength hpair (by omega),
    readPatchLoop_terminator (by omega), Nat.zero_add, Nat.zero_add, Nat.mod_eq_of_lt hlength]

/-- The empty span at offset zero looks like the end of the patch: the reader stops
eight bytes early. -/
theorem readPatch_emptySpan (buf : Memory) (maxsize : Nat) (rest : List UInt8) :
    readPatch buf maxsize ((memorySpanPieces 0 []).flatten ++ rest) =
      some (buf, 0, LittleEndian.encode 4 0 ++ (LittleEndian.encode 4 0 ++ rest)) := by
  have hsplit : (memorySpanPieces 0 []).flatten ++ rest =
      LittleEndian.encode 4 0 ++ (LittleEndian.encode 4 0 ++
        (LittleEndian.encode 4 0 ++ (LittleEndian.encode 4 0 ++ rest))) := by
    simp [memorySpanPieces]
  unfold readPatch
  rw [hsplit, readPatchLoop_terminator (by omega), Nat.zero_mod]

theorem not_spanRoundTrips_empty (ptr : Memory) : ¬ SpanRoundTrips ptr 0 0 := by
  rintro ⟨bytes, hwrite, hread⟩
  have hwf : Stream.WF ⟨[], Writer.new 1⟩ := Writer.wf_new 1
  have hslice : slice ptr 0 0 = [] := rfl
  have hlength : ([] : List UInt8).length < 2 ^ 32 := by decide
  obtain ⟨next, hexec, -, hbytes⟩ := hwrite ⟨[], Writer.new 1⟩ hwf
  obtain ⟨next', hexec', -, hbytes'⟩ := exec_writeMemorySpan hwf 0 hlength
  rw [hslice, hexec', Option.some.injEq] at hexec
  subst hexec
  rw [hbytes', List.append_cancel_left_eq] at hbytes
  subst hbytes
  have hall := hread zeroed 0 [] (Or.inl rfl)
  rw [readPatch_emptySpan] at hall
  simp [LittleEndian.encode] at hall

/-- **Memory span round trip.**  The empty span at offset zero is the only one that is
not read back: its own pair of zeros ends the patch, and the terminator is left. -/
theorem memory_span_round_trip_iff (ptr : Memory) (offset size : Nat)
    (hoffset : offset < 2 ^ 32) (hsize : size < 2 ^ 32) :
    SpanRoundTrips ptr offset size ↔ ¬ (offset = 0 ∧ size = 0) := by
  constructor
  · rintro hround ⟨rfl, rfl⟩
    exact not_spanRoundTrips_empty ptr hround
  · intro hpair
    have hlength : (slice ptr 0 size).length = size := slice_length ptr 0 size
    refine ⟨(memorySpanPieces offset (slice ptr 0 size)).flatten, fun s hwf => ?_,
      fun buf maxsize rest hmax => ?_⟩
    · exact exec_writeMemorySpan hwf offset (by omega)
    · rw [readPatch_memorySpan hoffset (by omega) (by omega) (by omega), hlength]

/-- Three bytes, and none at an offset that is not zero. -/
theorem memory_span_round_trip_bytes :
    SpanRoundTrips (store zeroed 0 [1, 2, 3]) 5 3 ∧ SpanRoundTrips zeroed 5 0 :=
  ⟨(memory_span_round_trip_iff _ 5 3 (by decide) (by decide)).mpr (by decide),
    (memory_span_round_trip_iff zeroed 5 0 (by decide) (by decide)).mpr (by decide)⟩

/-- No bytes at offset zero. -/
theorem memory_span_left_behind : ¬ SpanRoundTrips zeroed 0 0 :=
  not_spanRoundTrips_empty zeroed

/-! ## `read_patch_tracking` -/

section

variable {tracker : MemoryFlagTracker}

/-- The arguments of the call of `register_source`. -/
def spanRegistration (current : ChangeSource) (baseOffset size : Nat) : Registration :=
  { address := UInt64.ofNat baseOffset, size := UInt64.ofNat size, source := current }

/-- The loop of `read_patch_tracking`.  `ptr` is an address and `base` the address of the
buffer; what is written is registered with the distance of the two. -/
def readPatchTrackingLoop (base maxsize : Nat) (current : ChangeSource) :
    Nat → Memory → Regions tracker → Nat → Nat → List UInt8 →
      Option (Memory × Regions tracker × Nat × List UInt8)
  | 0, _, _, _, _, _ => none
  | rounds + 1, buf, regions, ptr, changed, input =>
      match readUint32 input with
      | none => none
      | some (offset, input) =>
          let ptr := ptr + offset
          if maxsize = 0 ∨ ptr ≤ base + maxsize then
            match readUint32 input with
            | none => none
            | some (size, input) =>
                if size ≤ input.length then
                  let registered :=
                    if size ≠ 0 then
                      registerSource regions (spanRegistration current (ptr - base) size)
                    else some regions
                  match registered with
                  | none => none
                  | some regions =>
                      let buf := store buf (ptr - base) (input.take size)
                      let input := input.drop size
                      let ptr := ptr + size
                      let changed := changed + size
                      if maxsize = 0 ∨ ptr ≤ base + maxsize then
                        if offset = 0 ∧ size = 0 then
                          some (buf, regions, changed % 2 ^ 32, input)
                        else
                          readPatchTrackingLoop base maxsize current rounds buf regions ptr
                            changed input
                      else none
                else none
          else none

/-- `read_patch_tracking` on a buffer of `maxsize` bytes at address `base`. -/
def readPatchTracking (base : Nat) (buf : Memory) (maxsize : Nat) (regions : Regions tracker)
    (current : ChangeSource) (input : List UInt8) :
    Option (Memory × Regions tracker × Nat × List UInt8) :=
  readPatchTrackingLoop base maxsize current (input.length + 1) buf regions base 0 input

/-- What is known about a byte that a packet has written. -/
def writtenBy (current : ChangeSource) (i : Nat) : Provenance :=
  ⟨current.packet, current.frame, current.thread, current.callId, 0xfffffffe,
    BitVec.ofNat 64 i⟩

/-- The map behind a patch. -/
def overlay (current : ChangeSource) (l : List (Nat × Nat)) (map : Nat → Option Provenance)
    (i : Nat) : Option Provenance :=
  if InSpans l i then some (writtenBy current i) else map i

/-- What the registration of a span sets. -/
theorem spanRegistration_spec {current : ChangeSource} (hcurrent : current.selfTest = true)
    {position size : Nat} (hsize : size < 2 ^ 32) (hobject : position + size ≤ 2 ^ 63)
    (hpos : 0 < size) :
    (Call.registerSource () (spanRegistration current position size)).Valid ∧
      (∀ i, (spanRegistration current position size).Covers i ↔
        InSpans [(position, size)] i) ∧
      ∀ i, (spanRegistration current position size).provenanceAt i = writtenBy current i := by
  have haddress : (UInt64.ofNat position).toNat = position :=
    UInt64.toNat_ofNat_of_lt (show position < 2 ^ 64 by omega)
  have hlength : (UInt64.ofNat size).toNat = size :=
    UInt64.toNat_ofNat_of_lt (show size < 2 ^ 64 by omega)
  have helements : (spanRegistration current position size).elements = 1 := rfl
  have hoffset : (spanRegistration current position size).offset = position := by
    unfold Registration.offset
    rw [if_pos (by rfl)]
    exact haddress
  refine ⟨Or.inr ⟨by simp [helements], hcurrent, by omega, fun hne => absurd helements hne⟩,
    fun i => ?_, fun i => ?_⟩
  · unfold Registration.Covers
    rw [if_pos (Or.inl helements), helements, inSpans_cons]
    simp [spanRegistration, haddress, hlength]
  · simp only [Registration.provenanceAt, Registration.reference, hoffset, Provenance.shift,
      HostWriteReference.provenance, writtenBy, Provenance.mk.injEq]
    refine ⟨rfl, rfl, rfl, rfl, rfl, ?_⟩
    simp only [spanRegistration, haddress]
    grind

/-- **One span is registered.**  Its bytes get the current packet and their own position. -/
theorem register_span {fragmentAt : tracker.State → Nat → Option Nat}
    (hlawful : tracker.Lawful fragmentAt) (regions : Regions tracker) {current : ChangeSource}
    (hcurrent : current.selfTest = true) {position size : Nat} (hsize : size < 2 ^ 32)
    (hobject : size ≠ 0 → position + size ≤ 2 ^ 63) :
    ∃ next,
      (if size ≠ 0 then registerSource regions (spanRegistration current position size)
        else some regions) = some next ∧
      recorded fragmentAt next =
        overlay current [(position, size)] (recorded fragmentAt regions) := by
  by_cases hzero : size = 0
  · refine ⟨regions, if_neg (not_not_intro hzero), funext fun i => ?_⟩
    rw [overlay, if_neg]
    rw [inSpans_cons]
    simp only [not_inSpans_nil, or_false]
    omega
  · obtain ⟨hvalid, hcovers, hprovenance⟩ :=
      spanRegistration_spec hcurrent hsize (hobject hzero) (Nat.pos_of_ne_zero hzero)
    obtain ⟨next, hnext, hspec⟩ := registerSource_spec hlawful hvalid regions
    refine ⟨next, by rw [if_pos hzero, hnext], funext fun i => ?_⟩
    simp only [hspec, overlay, hcovers, hprovenance]

theorem overlay_append (current : ChangeSource) (first rest : List (Nat × Nat))
    (map : Nat → Option Provenance) :
    overlay current rest (overlay current first map) = overlay current (first ++ rest) map := by
  funext i
  unfold overlay
  have happend : InSpans (first ++ rest) i ↔ InSpans first i ∨ InSpans rest i := by
    simp [InSpans, or_and_right, exists_or]
  by_cases hrest : InSpans rest i
  · rw [if_pos hrest, if_pos (happend.mpr (Or.inr hrest))]
  · rw [if_neg hrest]
    by_cases hfirst : InSpans first i
    · rw [if_pos hfirst, if_pos (happend.mpr (Or.inl hfirst))]
    · rw [if_neg hfirst, if_neg fun h => (happend.mp h).elim hfirst hrest]

theorem readUint32_lt {input rest : List UInt8} {value : Nat}
    (hread : readUint32 input = some (value, rest)) : value < 2 ^ 32 := by
  unfold readUint32 at hread
  split at hread
  · case _ hlength =>
      cases hread
      have hlt := LittleEndian.decode_lt (input.take 4)
      rw [List.length_take_of_le hlength] at hlt
      exact hlt
  · cases hread

/-- **The two loops side by side.**  The pointer stays as far from the buffer as the
position, and the regions get the spans. -/
theorem readPatchTrackingLoop_spec {fragmentAt : tracker.State → Nat → Option Nat}
    (hlawful : tracker.Lawful fragmentAt) {current : ChangeSource}
    (hcurrent : current.selfTest = true) (base : Nat)
    {maxsize rounds position changed count : Nat} {buf buf' : Memory} {input rest : List UInt8}
    (regions : Regions tracker)
    (hread : readPatchLoop maxsize rounds buf position changed input =
      some (buf', count, rest))
    (hobject : ∀ i, InSpans (spansLoop rounds position input) i → i < 2 ^ 63) :
    ∃ regions',
      readPatchTrackingLoop base maxsize current rounds buf regions (base + position) changed
        input = some (buf', regions', count, rest) ∧
      recorded fragmentAt regions' =
        overlay current (spansLoop rounds position input) (recorded fragmentAt regions) := by
  induction rounds generalizing buf position changed input regions with
  | zero => cases hread
  | succ rounds ih =>
      obtain ⟨offset, size, afterOffset, afterSize, hoffset, hsize, hmax, hlength, hcase⟩ :=
        readPatchLoop_eq_some hread
      have hspans : ¬ (offset = 0 ∧ size = 0) →
          spansLoop (rounds + 1) position input = (position + offset, size) ::
            spansLoop rounds (position + offset + size) (afterSize.drop size) := by
        intro hmore
        rw [spansLoop_succ hoffset hsize, if_neg hmore]
      have hends : size ≠ 0 → position + offset + size ≤ 2 ^ 63 := by
        intro hne
        have hlast := hobject (position + offset + size - 1) (by
          rw [hspans (by omega), inSpans_cons]
          left
          constructor <;> simp only <;> omega)
        omega
      obtain ⟨middle, hregister, hrecorded⟩ :=
        register_span hlawful regions hcurrent (readUint32_lt hsize) hends
      -- the pointer arithmetic of this round
      have hptr : base + position + offset - base = position + offset := by omega
      have hnext : base + position + offset + size = base + (position + offset + size) := by
        omega
      have hround : readPatchTrackingLoop base maxsize current (rounds + 1) buf regions
          (base + position) changed input =
          if offset = 0 ∧ size = 0 then
            some (store buf (position + offset) (afterSize.take size), middle,
              (changed + size) % 2 ^ 32, afterSize.drop size)
          else
            readPatchTrackingLoop base maxsize current rounds
              (store buf (position + offset) (afterSize.take size)) middle
              (base + (position + offset + size)) (changed + size) (afterSize.drop size) := by
        rw [readPatchTrackingLoop]
        simp only [hoffset, hsize, hptr]
        rw [if_pos (by omega), if_pos hlength]
        simp only [hregister]
        rw [if_pos (by omega), hnext]
      rcases hcase with ⟨rfl, rfl, rfl, rfl, rfl⟩ | ⟨hmore, hrest⟩
      · have hend : spansLoop (rounds + 1) position input = [] := by
          rw [spansLoop_succ hoffset hsize, if_pos ⟨rfl, rfl⟩]
        have hkeep : overlay current [(position + 0, 0)] (recorded fragmentAt regions) =
            overlay current [] (recorded fragmentAt regions) := by
          funext i
          unfold overlay
          rw [if_neg (by rw [inSpans_cons]; simp), if_neg (not_inSpans_nil i)]
        have hstore : store buf' (position + 0) (List.take 0 rest) = buf' := by
          funext i
          unfold store
          rw [if_neg (by simp)]
        refine ⟨middle, ?_, ?_⟩
        · rw [hround, if_pos ⟨rfl, rfl⟩, hstore, Nat.add_zero, List.drop_zero]
        · rw [hrecorded, hend, hkeep]
      · obtain ⟨regions', hexec, hmap⟩ := ih middle hrest fun i hi => hobject i (by
          rw [hspans hmore, inSpans_cons]
          exact Or.inr hi)
        refine ⟨regions', by rw [hround, if_neg hmore, hexec], ?_⟩
        rw [hmap, hrecorded, overlay_append, hspans hmore, List.singleton_append]

/-- One byte is looked up as the map has it. -/
theorem lookup_one (map : Nat → Option Provenance) (i : Nat) : lookup map i 1 = map i := by
  unfold lookup
  split
  · case _ hnone => exact hnone.symm
  · case _ first hfirst =>
      have hall : ∀ k < 1, map (i + k) = some (first.shift (BitVec.ofNat 64 k)) := by
        intro k hk
        obtain rfl : k = 0 := by omega
        rw [Nat.add_zero, hfirst]
        simp [Provenance.shift]
      rw [if_pos hall, hfirst]

/-- **The tracking decoder agrees with the plain one.**  Where `read_patch` succeeds,
`read_patch_tracking` leaves the same buffer, count and position.  Afterwards
`try_get_reference` looks up the map with the spans laid over it; for a single byte it
reports the current packet exactly if the patch covers the byte, and else what it
reported before.  No object has more than `PTRDIFF_MAX` bytes. -/
theorem tracking_agrees {fragmentAt : tracker.State → Nat → Option Nat}
    (hlawful : tracker.Lawful fragmentAt) {current : ChangeSource}
    (hcurrent : current.selfTest = true) (base : Nat) (regions : Regions tracker)
    {maxsize count : Nat} {buf buf' : Memory} {input rest : List UInt8}
    (hread : readPatch buf maxsize input = some (buf', count, rest))
    (hobject : ∀ i, Covered input i → i < 2 ^ 63) :
    ∃ regions',
      readPatchTracking base buf maxsize regions current input =
        some (buf', regions', count, rest) ∧
      (∀ (address : UInt64) (size : UInt32), size ≠ 0 →
        address.toNat + size.toNat < 2 ^ 64 →
        ∃ result, tryGetReference regions' address size = some result ∧
          result.map HostWriteReference.provenance =
            lookup (overlay current (spans input) (recorded fragmentAt regions))
              address.toNat size.toNat) ∧
      ∀ address : UInt64, address.toNat + 1 < 2 ^ 64 →
        ∃ before after, tryGetReference regions address 1 = some before ∧
          tryGetReference regions' address 1 = some after ∧
          after.map HostWriteReference.provenance =
            if Covered input address.toNat then some (writtenBy current address.toNat)
            else before.map HostWriteReference.provenance := by
  obtain ⟨regions', hexec, hmap⟩ :=
    readPatchTrackingLoop_spec hlawful hcurrent base regions hread hobject
  refine ⟨regions', hexec, fun address size hsize hend => ?_, fun address hend => ?_⟩
  · obtain ⟨result, hresult, hlookup⟩ := tryGetReference_spec hlawful regions' hsize hend
    refine ⟨result, hresult, ?_⟩
    rw [hlookup, hmap]
    rfl
  · have hone : (1 : UInt32).toNat = 1 := rfl
    have hne : (1 : UInt32) ≠ 0 := by decide
    have hfits : address.toNat + (1 : UInt32).toNat < 2 ^ 64 := hend
    obtain ⟨before, hbefore, hlookup⟩ := tryGetReference_spec hlawful regions hne hfits
    obtain ⟨after, hafter, hlookup'⟩ := tryGetReference_spec hlawful regions' hne hfits
    refine ⟨before, after, hbefore, hafter, ?_⟩
    rw [hlookup', hlookup, hmap, hone, lookup_one, lookup_one]
    rfl

end

/-- A patch of two spans, read by packet 5 over bytes that packet 1 has written. -/
def twoSpans : List UInt8 :=
  span 2 2 [10, 11] ++ (span 3 1 [12] ++
    (LittleEndian.encode 4 0 ++ LittleEndian.encode 4 0))

theorem tracking_agrees_twoSpans :
    ∃ before buf' regions',
      registerSource (Regions.new fragmentTracker)
        { address := 0, size := 6, source := packetSource 1 } = some before ∧
      readPatchTracking 4096 zeroed 8 before (packetSource 5) twoSpans =
        some (buf', regions', 3, []) ∧
      [buf' 1, buf' 2, buf' 3, buf' 4, buf' 7] = [0, 10, 11, 0, 12] ∧
      ∀ address : UInt64, address.toNat + 1 < 2 ^ 64 →
        ∃ old new, tryGetReference before address 1 = some old ∧
          tryGetReference regions' address 1 = some new ∧
          new.map HostWriteReference.provenance =
            if Covered twoSpans address.toNat then
              some (writtenBy (packetSource 5) address.toNat)
            else old.map HostWriteReference.provenance := by
  obtain ⟨before, hbefore⟩ : ∃ before, registerSource (Regions.new fragmentTracker)
      { address := 0, size := 6, source := packetSource 1 } = some before := ⟨_, rfl⟩
  obtain ⟨buf', hread, hvalues⟩ : ∃ buf', readPatch zeroed 8 twoSpans = some (buf', 3, []) ∧
      [buf' 1, buf' 2, buf' 3, buf' 4, buf' 7] = [0, 10, 11, 0, 12] :=
    ⟨_, rfl, by decide⟩
  have hobject : ∀ i, Covered twoSpans i → i < 2 ^ 63 := by
    have hspans : spans twoSpans = [(2, 2), (7, 1)] := by decide
    intro i hi
    rw [Covered, hspans, inSpans_cons, inSpans_cons] at hi
    simp only [not_inSpans_nil, or_false] at hi
    omega
  obtain ⟨regions', hexec, -, hbytes⟩ := tracking_agrees fragmentTracker_lawful
    (show (packetSource 5).selfTest = true by decide) 4096 before hread hobject
  exact ⟨before, buf', regions', hbefore, hexec, hvalues, hbytes⟩

end PatchStream
end Lavatube
