import Lavatube.AddressRemapper
import Lavatube.HostMemory
import Lavatube.Lib.LittleEndian

/-!
# Marked offsets

An application that writes device addresses and shader group handles into memory marks them when
it flushes the memory.  The capture keeps their captured values in its clone and sends the
difference; replay applies the difference and then translates every marked value in place, so
that its own memory holds translated values from then on.

The difference rewrites the blocks of 8 bytes that differ, counted from the start of the flush.
The markings are sent along for the values that a changed span touches, which is found by another
scan.  A value is translated rightly if the two agree about it: it is rewritten as a whole and
sent along, or it is left alone by both.

* `collectPatchSpans`, `flushBuffer` — the capture of a flush.
* `translateMarkedOffsets`, `bufferUpdate` — its replay.
* `exists_collectPatchSpans_of_ne`, `touched_of_ne` — a value that has changed is touched.
* `Settled` — the flushes whose difference and markings agree about every value.
* `marked_values_translated` — replay of such flushes keeps all marked values translated.
-/

namespace Lavatube
namespace MarkedOffsets

open ByteMemory HostMemory IntervalList Patch RangeTracking Transition

/-! ## Translation -/

/-- An `address_remapper`, and the objects that its pointers lead to in replay. -/
structure Remapping where
  remapper : AddressRemapper.Remapper
  heap : AddressRemapper.Heap

/-- `address_remapper::translate_address`; zero is no address. -/
def Remapping.translateAddress (remapping : Remapping) (stored : Nat) : Nat :=
  remapping.remapper.translateAddress remapping.heap stored

/-- The shader group handles of a `trackedpipeline`, captured and in replay. -/
structure Pipeline where
  groupHandleSize : Nat
  groupHandles : List UInt8
  groupCount : Nat
  captureReplay : Bool
  groupHandleSizeReplay : Nat
  groupHandlesReplay : List UInt8
deriving DecidableEq, Repr

/-- The groups that `find_marked_shader_group_handle_match` finds; more than one are ambiguous. -/
def Pipeline.matches (pipeline : Pipeline) (handle : List UInt8) : List Nat :=
  if pipeline.groupHandleSize ≠ 32 ∨ pipeline.groupHandles = [] then
    []
  else
    let maxGroups := pipeline.groupHandles.length / 32
    let groupCount :=
      if pipeline.groupCount = 0 ∨ pipeline.groupCount > maxGroups then maxGroups
      else pipeline.groupCount
    (List.range groupCount).filter fun i => (pipeline.groupHandles.drop (i * 32)).take 32 = handle

/-- One round of `rewrite_marked_shader_group_handle`: what has been found for the handle so far.
`none` is an abort of the replay. -/
def matchPipeline (handle : List UInt8) (found : Option (List UInt8)) (pipeline : Pipeline) :
    Option (Option (List UInt8)) :=
  match pipeline.matches handle with
  | [] => some found
  | [group] =>
      if found.isSome then none
      else if pipeline.captureReplay then some (some handle)
      else if pipeline.groupHandleSizeReplay ≠ 32 then none
      else if group * 32 + 32 > pipeline.groupHandlesReplay.length then none
      else some (some ((pipeline.groupHandlesReplay.drop (group * 32)).take 32))
  | _ => none

/-- `rewrite_marked_shader_group_handle`. -/
def rewriteMarkedShaderGroupHandle (pipelines : List Pipeline) (handle : List UInt8) :
    Option (List UInt8) :=
  (exec (matchPipeline handle) none pipelines).join

/-- What replay translates with. -/
structure Tables where
  deviceAddressRemapping : Remapping
  accelerationStructureAddressRemapping : Remapping
  pipelines : List Pipeline

/-- The markings of this module: device addresses by their subtype, and shader group handles. -/
inductive MarkingType where
  | bufferAddress
  | accelerationStructureAddress
  | shaderGroupHandle
deriving DecidableEq, Repr

structure Marking where
  offset : Nat
  type : MarkingType
deriving DecidableEq, Repr

/-- `marked_entry_size`. -/
def Marking.size (marking : Marking) : Nat :=
  match marking.type with
  | .bufferAddress | .accelerationStructureAddress => 8
  | .shaderGroupHandle => 32

theorem Marking.size_pos (marking : Marking) : 0 < marking.size := by
  unfold Marking.size
  split <;> decide

/-- The address is not zero after translation, as is asserted. -/
def checkedAddress (newval : Nat) : Option (List UInt8) :=
  if newval ≠ 0 then some (LittleEndian.encode 8 newval) else none

/-- The value that is put in the place of a marked one; `none` is an abort of the replay. -/
def Tables.translate (tables : Tables) : MarkingType → List UInt8 → Option (List UInt8)
  | .bufferAddress, current =>
      checkedAddress (tables.deviceAddressRemapping.translateAddress
        (LittleEndian.decode current))
  | .accelerationStructureAddress, current =>
      checkedAddress (tables.accelerationStructureAddressRemapping.translateAddress
        (LittleEndian.decode current))
  | .shaderGroupHandle, handle => rewriteMarkedShaderGroupHandle tables.pipelines handle

/-- One round of `translate_marked_offsets`. -/
def translateMarking (tables : Tables) (size : Nat) (ptr : Memory) (marking : Marking) :
    Option Memory :=
  if marking.offset + marking.size ≤ size then
    (tables.translate marking.type (slice ptr marking.offset marking.size)).map
      (store ptr marking.offset)
  else
    none

/-- `translate_marked_offsets`. -/
def translateMarkedOffsets (tables : Tables) (size : Nat) (ptr : Memory)
    (markings : List Marking) : Option Memory :=
  exec (translateMarking tables size) ptr markings

/-! ## Capture of a flush -/

/-- One of the scan loops of `collect_patch_spans`. -/
def advance (holds : Nat → Bool) (stride size : Nat) : Nat → Nat → Nat
  | 0, pos => pos
  | rounds + 1, pos =>
      if pos + stride ≤ size ∧ holds pos = true then
        advance holds stride size rounds (pos + stride)
      else
        pos

/-- The main loop of `collect_patch_spans`: every round passes a byte at least. -/
def collectPatchSpansLoop (orig chng : Memory) (size : Nat) : Nat → Nat → List Range
  | 0, _ => []
  | rounds + 1, pos =>
      if pos < size then
        let pos := advance (fun pos => same orig chng pos 8) 8 size size pos
        let start := advance (fun pos => same orig chng pos 1) 1 size size pos
        if start ≥ size then
          []
        else
          let pos := advance (fun pos => !same orig chng pos 8) 8 size size start
          let pos := advance (fun pos => !same orig chng pos 1) 1 size size pos
          ⟨start, pos - 1⟩ :: collectPatchSpansLoop orig chng size rounds pos
      else
        []

/-- `collect_patch_spans`. -/
def collectPatchSpans (orig chng : Memory) (offset size : Nat) : List Range :=
  (collectPatchSpansLoop (shift orig offset) (shift chng offset) size size 0).map fun span =>
    ⟨offset + span.first, offset + span.last⟩

/-- `range_overlaps_any`. -/
def rangeOverlapsAny (first last : Nat) (spans : List Range) : Bool :=
  spans.any fun span => first ≤ span.last ∧ span.first ≤ last

/-- The buffer that is bound to the memory; its storage in replay is at least as large. -/
structure Buffer where
  offset : Nat
  size : Nat
  replaySize : Nat
  size_le : size ≤ replaySize

/-- One range of `vkFlushMappedMemoryRanges`: the memory as the host has left it, the current map,
the range, and the markings with offsets from its start. -/
structure Flush where
  mem : Memory
  window : Option Window
  offset : Nat
  size : Nat
  markings : Option (List Marking)

/-- An update packet of the buffer. -/
structure Packet where
  markings : List Marking
  bytes : List UInt8
deriving DecidableEq, Repr

/-- The part of the memory that is flushed, if the buffer is updated from it. -/
def Flush.mapped (flush : Flush) (explicitHostUpdates : Bool) (buffer : Buffer) :
    Option (Nat × Nat) :=
  match clampMappedFlushRange flush.window flush.offset flush.size with
  | none => none
  | some (mappedStart, mappedEnd) =>
      if explicitHostUpdates = false ∧ flush.markings = none then none
      else if buffer.offset > mappedEnd then none
      else if buffer.offset + buffer.size ≤ mappedStart then none
      else some (mappedStart, mappedEnd)

/-- The start of the flushed part in the buffer. -/
def Buffer.start (buffer : Buffer) (mappedStart : Nat) : Nat :=
  max buffer.offset mappedStart - buffer.offset

/-- The end of the flushed part in the buffer. -/
def Buffer.stop (buffer : Buffer) (mappedEnd : Nat) : Nat :=
  min (buffer.offset + buffer.size) mappedEnd - buffer.offset

/-- The marking as one of the buffer, if it is in the flushed part. -/
def Flush.objectMarking (flush : Flush) (buffer : Buffer) (mapped : Nat × Nat)
    (marking : Marking) : Option Marking :=
  let markAbs := (flush.offset + marking.offset) % 2 ^ 64
  if markAbs < mapped.1 ∨ markAbs ≥ mapped.2 then none
  else if markAbs < buffer.offset ∨ markAbs ≥ buffer.offset + buffer.size then none
  else some ⟨markAbs - buffer.offset, marking.type⟩

/-- The markings of the flush that are in the buffer. -/
def Flush.objectMarkings (flush : Flush) (buffer : Buffer) (mapped : Nat × Nat) : List Marking :=
  (flush.markings.getD []).filterMap (flush.objectMarking buffer mapped)

/-- The spans that have changed in the flushed part. -/
def Flush.changedSpans (flush : Flush) (buffer : Buffer) (clone : Memory) (mapped : Nat × Nat) :
    List Range :=
  collectPatchSpans (shift clone buffer.offset) (shift flush.mem buffer.offset)
    (buffer.start mapped.1) (buffer.stop mapped.2 - buffer.start mapped.1)

/-- A changed span touches the marked value. -/
def Marking.touched (marking : Marking) (spans : List Range) : Bool :=
  rangeOverlapsAny marking.offset (marking.offset + marking.size - 1) spans

/-- `trace_post_vkFlushMappedMemoryRanges` for one range and the buffer: the clone and the packets
afterwards. -/
def flushBuffer (explicitHostUpdates : Bool) (buffer : Buffer) (clone : Memory) (flush : Flush) :
    Memory × List Packet :=
  match flush.mapped explicitHostUpdates buffer with
  | none => (clone, [])
  | some mapped =>
      let spans := flush.changedSpans buffer clone mapped
      let adjusted := (flush.objectMarkings buffer mapped).filter (·.touched spans)
      if spans = [] then
        (clone, [])
      else
        let written := writeOutObject 0 buffer.offset clone flush.mem (buffer.start mapped.1)
          (buffer.stop mapped.2 - buffer.start mapped.1)
        (written.1, written.2.map fun update => ⟨adjusted, update.bytes⟩)

/-! ## Replay -/

/-- `buffer_update`. -/
def bufferUpdate (tables : Tables) (buffer : Buffer) (ptr : Memory) (packet : Packet) :
    Option Memory :=
  match readPatch ptr buffer.replaySize packet.bytes with
  | some (ptr, _, []) => translateMarkedOffsets tables buffer.replaySize ptr packet.markings
  | _ => none

/-- The clone, the buffer in replay, and the values that are marked in it: both memories are zero
at first. -/
structure State where
  clone : Memory := zeroed
  replay : Memory := zeroed
  marked : List Marking := []

/-- Two marked values share no byte. -/
def Marking.Apart (left right : Marking) : Prop :=
  left.offset + left.size ≤ right.offset ∨ right.offset + right.size ≤ left.offset

instance (left right : Marking) : Decidable (left.Apart right) :=
  inferInstanceAs (Decidable (_ ∨ _))

/-- A value that was marked before stays marked, unless it is in the flushed part or a new one
takes its place. -/
def Marking.stays (marking : Marking) (start stop : Nat) (markings : List Marking) : Bool :=
  ¬ (start ≤ marking.offset ∧ marking.offset + marking.size ≤ stop) ∧
    ∀ other ∈ markings, marking.Apart other

/-- The values that are marked before and stay marked. -/
def State.staying (s : State) (buffer : Buffer) (flush : Flush) (mapped : Nat × Nat) :
    List Marking :=
  s.marked.filter fun marking => marking.stays (buffer.start mapped.1) (buffer.stop mapped.2)
    (flush.objectMarkings buffer mapped)

/-- The values that are marked after the flush. -/
def State.markedAfter (s : State) (explicitHostUpdates : Bool) (buffer : Buffer) (flush : Flush) :
    List Marking :=
  match flush.mapped explicitHostUpdates buffer with
  | none => s.marked
  | some mapped => flush.objectMarkings buffer mapped ++ s.staying buffer flush mapped

/-- A flush is captured and replayed; `none` is an abort of the replay. -/
def step (tables : Tables) (explicitHostUpdates : Bool) (buffer : Buffer) (s : State)
    (flush : Flush) : Option State :=
  let captured := flushBuffer explicitHostUpdates buffer s.clone flush
  (exec (bufferUpdate tables buffer) s.replay captured.2).map fun replay =>
    { clone := captured.1
      replay := replay
      marked := s.markedAfter explicitHostUpdates buffer flush }

/-! ## The changed spans -/

section

variable {orig chng : Memory} {holds : Nat → Bool} {stride size rounds pos i : Nat}

/-- A scan loop passes whole strides, all of which hold, until one does not. -/
theorem advance_spec (holds : Nat → Bool) (stride size rounds pos : Nat)
    (hrounds : size < pos + rounds * stride + stride) :
    ∃ count, advance holds stride size rounds pos = pos + count * stride ∧
      (∀ j < count, holds (pos + j * stride) = true) ∧
      (pos + count * stride + stride ≤ size → holds (pos + count * stride) = false) := by
  induction rounds generalizing pos with
  | zero => exact ⟨0, by simp [advance], by simp, by simp at hrounds; omega⟩
  | succ rounds ih =>
      unfold advance
      split
      · case _ hnext =>
          have hrest : size < pos + stride + rounds * stride + stride := by
            rw [Nat.succ_mul] at hrounds
            omega
          obtain ⟨count, hstop, hall, hend⟩ := ih (pos + stride) hrest
          have hshift : ∀ n, pos + stride + n * stride = pos + (n + 1) * stride := by
            intro n
            rw [Nat.succ_mul]
            omega
          rw [hshift] at hstop hend
          refine ⟨count + 1, hstop, fun j hj => ?_, hend⟩
          cases j with
          | zero => simpa using hnext.2
          | succ j =>
              rw [← hshift]
              exact hall j (by omega)
      · case _ hstay =>
          refine ⟨0, by simp, by simp, fun hroom => ?_⟩
          simp only [Nat.zero_mul, Nat.add_zero] at hroom ⊢
          by_contra hholds
          exact hstay ⟨hroom, by simpa using hholds⟩

/-- What is passed as equal is equal. -/
theorem advance_equal (hrounds : size < pos + rounds * stride + stride) (hstride : 0 < stride)
    (hlow : pos ≤ i)
    (hhigh : i < advance (fun pos => same orig chng pos stride) stride size rounds pos) :
    orig i = chng i := by
  obtain ⟨count, hstop, hall, -⟩ :=
    advance_spec (fun pos => same orig chng pos stride) stride size rounds pos hrounds
  rw [hstop] at hhigh
  have hblock := hall ((i - pos) / stride) (by
    rw [Nat.div_lt_iff_lt_mul hstride]
    omega)
  have hdiv := Nat.div_add_mod (i - pos) stride
  have hmod := Nat.mod_lt (i - pos) hstride
  rw [Nat.mul_comm] at hdiv
  exact (same_iff _ _ _ _).mp hblock i (by omega) (by omega)

/-- The bytes are passed up to one that differs. -/
theorem advance_differs (hrounds : size ≤ pos + rounds)
    (hroom : advance (fun pos => same orig chng pos 1) 1 size rounds pos < size) :
    same orig chng (advance (fun pos => same orig chng pos 1) 1 size rounds pos) 1 = false := by
  obtain ⟨count, hstop, -, hend⟩ :=
    advance_spec (fun pos => same orig chng pos 1) 1 size rounds pos (by omega)
  rw [hstop] at hroom ⊢
  exact hend hroom

theorem le_advance (hrounds : size < pos + rounds * stride + stride) :
    pos ≤ advance holds stride size rounds pos := by
  obtain ⟨count, hstop, -⟩ := advance_spec holds stride size rounds pos hrounds
  omega

/-- A stride that holds is passed. -/
theorem add_le_advance (hrounds : size < pos + rounds * stride + stride)
    (hroom : pos + stride ≤ size) (hholds : holds pos = true) :
    pos + stride ≤ advance holds stride size rounds pos := by
  obtain ⟨count, hstop, -, hend⟩ := advance_spec holds stride size rounds pos hrounds
  rcases Nat.eq_zero_or_pos count with rfl | hcount
  · have hstay := hend (by omega)
    rw [Nat.zero_mul, Nat.add_zero, hholds] at hstay
    cases hstay
  · rw [hstop]
    have := Nat.mul_le_mul_right stride hcount
    omega

/-- The bytes that differ are in the spans of the main loop. -/
theorem exists_span_of_ne (hrounds : size ≤ pos + rounds) (hlow : pos ≤ i) (hhigh : i < size)
    (hne : orig i ≠ chng i) :
    ∃ span ∈ collectPatchSpansLoop orig chng size rounds pos,
      span.first ≤ i ∧ i ≤ span.last := by
  induction rounds generalizing pos with
  | zero => omega
  | succ rounds ih =>
      unfold collectPatchSpansLoop
      rw [if_pos (by omega)]
      have hword : advance (fun pos => same orig chng pos 8) 8 size size pos ≤ i := by
        refine not_lt.mp fun hlt => hne (advance_equal ?_ (by decide) hlow hlt)
        omega
      have hwordLow : pos ≤ advance (fun pos => same orig chng pos 8) 8 size size pos :=
        le_advance (by omega)
      simp only
      generalize advance (fun pos => same orig chng pos 8) 8 size size pos = word at *
      have hstart : advance (fun pos => same orig chng pos 1) 1 size size word ≤ i := by
        refine not_lt.mp fun hlt => hne (advance_equal ?_ (by decide) hword hlt)
        omega
      have hstartLow : word ≤ advance (fun pos => same orig chng pos 1) 1 size size word :=
        le_advance (by omega)
      have hdiffers : same orig chng
          (advance (fun pos => same orig chng pos 1) 1 size size word) 1 = false := by
        refine advance_differs ?_ ?_ <;> omega
      generalize advance (fun pos => same orig chng pos 1) 1 size size word = start at *
      rw [if_neg (by omega)]
      have hstop8 : start ≤ advance (fun pos => !same orig chng pos 8) 8 size size start :=
        le_advance (by omega)
      generalize advance (fun pos => !same orig chng pos 8) 8 size size start = stop8 at *
      have hstop1 : stop8 ≤ advance (fun pos => !same orig chng pos 1) 1 size size stop8 :=
        le_advance (by omega)
      have hprogress : start < advance (fun pos => !same orig chng pos 1) 1 size size stop8 := by
        by_cases hsame : stop8 = start
        · rw [hsame]
          have hstep : start + 1 ≤
              advance (fun pos => !same orig chng pos 1) 1 size size start := by
            refine add_le_advance ?_ ?_ (by simp [hdiffers]) <;> omega
          omega
        · omega
      generalize advance (fun pos => !same orig chng pos 1) 1 size size stop8 = stop at *
      by_cases hspan : i < stop
      · exact ⟨⟨start, stop - 1⟩, List.mem_cons_self .., hstart, by simp only; omega⟩
      · have hrest : size ≤ stop + rounds := by omega
        obtain ⟨span, hmem, hin⟩ := ih hrest (by omega)
        exact ⟨span, List.mem_cons_of_mem _ hmem, hin⟩

/-- **Every byte that differs is in a changed span.** -/
theorem exists_collectPatchSpans_of_ne {offset : Nat} (hlow : offset ≤ i)
    (hhigh : i < offset + size) (hne : orig i ≠ chng i) :
    ∃ span ∈ collectPatchSpans orig chng offset size, span.first ≤ i ∧ i ≤ span.last := by
  have hshift : shift orig offset (i - offset) ≠ shift chng offset (i - offset) := by
    rwa [shift_sub _ hlow, shift_sub _ hlow]
  have hrounds : size ≤ 0 + size := by omega
  obtain ⟨span, hspan, hfirst, hlast⟩ :=
    exists_span_of_ne hrounds (Nat.zero_le _) (by omega) hshift
  exact ⟨_, List.mem_map_of_mem hspan, by simp only; omega, by simp only; omega⟩

end

/-! ## Values that are translated -/

/-- The marked value in replay is the translation of the one in the clone. -/
def Translated (tables : Tables) (buffer : Buffer) (s : State) (marking : Marking) : Prop :=
  tables.translate marking.type
      (slice (shift s.clone buffer.offset) marking.offset marking.size) =
    some (slice s.replay marking.offset marking.size)

/-- What the application promises of the markings of a flush: they are inside of the flushed
part, share no byte, and mark values that replay knows. -/
structure WellMarked (tables : Tables) (buffer : Buffer) (flush : Flush) (mapped : Nat × Nat) :
    Prop where
  inside : ∀ marking ∈ flush.objectMarkings buffer mapped,
    marking.offset + marking.size ≤ buffer.stop mapped.2
  apart : (flush.objectMarkings buffer mapped).Pairwise Marking.Apart
  known : ∀ marking ∈ flush.objectMarkings buffer mapped,
    (tables.translate marking.type
      (slice (shift flush.mem buffer.offset) marking.offset marking.size)).isSome = true

/-- Position `i` of the buffer is in a block that the flush has changed. -/
def State.Changed (s : State) (buffer : Buffer) (flush : Flush) (mapped : Nat × Nat) (i : Nat) :
    Prop :=
  Rewritten (shift s.clone buffer.offset) (shift flush.mem buffer.offset) (buffer.start mapped.1)
    (buffer.stop mapped.2 - buffer.start mapped.1) i

/-- The blocks and the spans of the flush agree about every marked value: all blocks of a value
that is touched have changed, and no block of any other.  A value that is not touched has been
marked before. -/
structure Agreed (buffer : Buffer) (s : State) (flush : Flush) (mapped : Nat × Nat) : Prop where
  touched : ∀ marking ∈ flush.objectMarkings buffer mapped,
    marking.touched (flush.changedSpans buffer s.clone mapped) = true →
    ∀ i, marking.offset ≤ i → i < marking.offset + marking.size → s.Changed buffer flush mapped i
  untouched : ∀ marking ∈ flush.objectMarkings buffer mapped,
    marking.touched (flush.changedSpans buffer s.clone mapped) = false →
    marking ∈ s.marked ∧ ∀ i, marking.offset ≤ i → i < marking.offset + marking.size →
      ¬ s.Changed buffer flush mapped i
  staying : ∀ marking ∈ s.staying buffer flush mapped,
    ∀ i, marking.offset ≤ i → i < marking.offset + marking.size → ¬ s.Changed buffer flush mapped i

instance (tables : Tables) (buffer : Buffer) (flush : Flush) (mapped : Nat × Nat) :
    Decidable (WellMarked tables buffer flush mapped) :=
  decidable_of_iff (_ ∧ _ ∧ _)
    ⟨fun h => ⟨h.1, h.2.1, h.2.2⟩, fun h => ⟨h.inside, h.apart, h.known⟩⟩

instance (s : State) (buffer : Buffer) (flush : Flush) (mapped : Nat × Nat) (i : Nat) :
    Decidable (s.Changed buffer flush mapped i) :=
  inferInstanceAs (Decidable (Rewritten _ _ _ _ _))

instance (buffer : Buffer) (s : State) (flush : Flush) (mapped : Nat × Nat) :
    Decidable (Agreed buffer s flush mapped) :=
  decidable_of_iff (_ ∧ _ ∧ _)
    ⟨fun h => ⟨h.1, h.2.1, h.2.2⟩, fun h => ⟨h.touched, h.untouched, h.staying⟩⟩

/-- The flushes that are well marked. -/
def Promised (tables : Tables) (explicitHostUpdates : Bool) (buffer : Buffer) (flush : Flush) :
    Prop :=
  ∀ mapped, flush.mapped explicitHostUpdates buffer = some mapped →
    WellMarked tables buffer flush mapped

/-- The flushes whose difference and markings agree. -/
def Settled (explicitHostUpdates : Bool) (buffer : Buffer) (s : State) (flush : Flush) : Prop :=
  ∀ mapped, flush.mapped explicitHostUpdates buffer = some mapped → Agreed buffer s flush mapped

instance (tables : Tables) (explicitHostUpdates : Bool) (buffer : Buffer) (flush : Flush) :
    Decidable (Promised tables explicitHostUpdates buffer flush) :=
  inferInstanceAs (Decidable (∀ mapped ∈ flush.mapped explicitHostUpdates buffer, _))

instance (explicitHostUpdates : Bool) (buffer : Buffer) (s : State) (flush : Flush) :
    Decidable (Settled explicitHostUpdates buffer s flush) :=
  inferInstanceAs (Decidable (∀ mapped ∈ flush.mapped explicitHostUpdates buffer, _))

section

variable {tables : Tables} {explicitHostUpdates : Bool} {buffer : Buffer} {s next : State}
variable {flush : Flush} {mapped : Nat × Nat} {marking other : Marking} {ptr : Memory}
variable {markings : List Marking} {value : List UInt8}

theorem Marking.Apart.symm {left right : Marking} (h : left.Apart right) : right.Apart left :=
  Or.symm h

instance : Std.Symm Marking.Apart :=
  ⟨fun _ _ => Marking.Apart.symm⟩

/-- A position of a marked value is in no value apart from it. -/
theorem Marking.Apart.not_mem {left right : Marking} (h : left.Apart right) {i : Nat}
    (hlow : left.offset ≤ i) (hhigh : i < left.offset + left.size) :
    ¬ (right.offset ≤ i ∧ i < right.offset + right.size) := by
  unfold Marking.Apart at h
  omega

/-- A handle is replaced by one of the same size. -/
theorem matchPipeline_length {found result : Option (List UInt8)} {pipeline : Pipeline}
    {handle : List UInt8} (hlength : handle.length = 32)
    (hfound : ∀ bytes ∈ found, bytes.length = 32)
    (hmatch : matchPipeline handle found pipeline = some result) :
    ∀ bytes ∈ result, bytes.length = 32 := by
  unfold matchPipeline at hmatch
  split at hmatch
  · cases hmatch
    exact hfound
  · split_ifs at hmatch with hsome hpreserve hsize hbound
    · cases hmatch
      rintro bytes ⟨⟩
      exact hlength
    · cases hmatch
      rintro bytes ⟨⟩
      rw [List.length_take, List.length_drop]
      omega
  · cases hmatch

theorem rewriteMarkedShaderGroupHandle_length {pipelines : List Pipeline} {handle new : List UInt8}
    (hlength : handle.length = 32)
    (hnew : rewriteMarkedShaderGroupHandle pipelines handle = some new) : new.length = 32 := by
  obtain ⟨result, hexec, rfl⟩ : ∃ result, exec (matchPipeline handle) none pipelines =
      some result ∧ result = some new := by
    rw [rewriteMarkedShaderGroupHandle, Option.join_eq_some_iff] at hnew
    exact ⟨some new, hnew, rfl⟩
  have hinv : ∀ bytes ∈ some new, bytes.length = 32 :=
    exec_invariant_of_step (fun _ _ _ hfound => matchPipeline_length hlength hfound)
      (fun _ hbytes => absurd hbytes (Option.not_mem_none _)) hexec
  exact hinv new rfl

theorem checkedAddress_length {newval : Nat} {new : List UInt8}
    (hnew : checkedAddress newval = some new) : new.length = 8 := by
  unfold checkedAddress at hnew
  split_ifs at hnew
  cases hnew
  exact LittleEndian.encode_length 8 newval

/-- A translation has the size of the marked value. -/
theorem translate_length (hlength : value.length = marking.size) {new : List UInt8}
    (hnew : tables.translate marking.type value = some new) : new.length = marking.size := by
  unfold Marking.size at hlength ⊢
  cases htype : marking.type with
  | bufferAddress =>
      rw [htype] at hnew
      exact checkedAddress_length hnew
  | accelerationStructureAddress =>
      rw [htype] at hnew
      exact checkedAddress_length hnew
  | shaderGroupHandle =>
      rw [htype] at hnew hlength
      exact rewriteMarkedShaderGroupHandle_length hlength hnew

/-- **Translation in place.**  Marked values that share no byte are translated from what they were
before, and nothing else changes. -/
theorem translateMarkedOffsets_spec {size : Nat}
    (hinside : ∀ marking ∈ markings, marking.offset + marking.size ≤ size)
    (hapart : markings.Pairwise Marking.Apart)
    (hknown : ∀ marking ∈ markings,
      (tables.translate marking.type (slice ptr marking.offset marking.size)).isSome = true) :
    ∃ after, translateMarkedOffsets tables size ptr markings = some after ∧
      (∀ marking ∈ markings, tables.translate marking.type
          (slice ptr marking.offset marking.size) =
        some (slice after marking.offset marking.size)) ∧
      ∀ i, (∀ marking ∈ markings, ¬ (marking.offset ≤ i ∧ i < marking.offset + marking.size)) →
        after i = ptr i := by
  induction markings generalizing ptr with
  | nil => exact ⟨ptr, rfl, by simp, fun _ _ => rfl⟩
  | cons first markings ih =>
      rw [List.pairwise_cons] at hapart
      obtain ⟨new, hnew⟩ := Option.isSome_iff_exists.mp (hknown first (by simp))
      have hlength : new.length = first.size := translate_length (slice_length ..) hnew
      -- the other values are not touched by the first one
      have hkeep : ∀ marking ∈ markings,
          slice (store ptr first.offset new) marking.offset marking.size =
            slice ptr marking.offset marking.size := by
        refine fun marking hmarking => slice_congr fun i hlow hhigh => store_of_not_mem ?_
        rw [hlength]
        exact (hapart.1 marking hmarking).symm.not_mem hlow hhigh
      have hrest : ∀ marking ∈ markings, (tables.translate marking.type
          (slice (store ptr first.offset new) marking.offset marking.size)).isSome = true := by
        intro marking hmarking
        rw [hkeep marking hmarking]
        exact hknown marking (List.mem_cons_of_mem _ hmarking)
      obtain ⟨after, hafter, htranslated, hothers⟩ :=
        ih (fun marking hmarking => hinside marking (List.mem_cons_of_mem _ hmarking)) hapart.2
          hrest
      have hstep : translateMarking tables size ptr first = some (store ptr first.offset new) := by
        rw [translateMarking, if_pos (hinside first (by simp)), hnew]
        rfl
      refine ⟨after, exec_cons_eq_some_iff.mpr ⟨_, hstep, hafter⟩, fun marking hmarking => ?_,
        fun i hout => ?_⟩
      · rcases List.mem_cons.mp hmarking with rfl | hmarking
        · have hslice : slice after marking.offset marking.size = new := by
            calc slice after marking.offset marking.size
                = slice (store ptr marking.offset new) marking.offset marking.size :=
                  slice_congr fun i hlow hhigh => hothers i fun other hother =>
                    (hapart.1 other hother).not_mem hlow hhigh
              _ = new := by rw [← hlength, slice_store_self]
          rw [hnew, hslice]
        · rw [← htranslated marking hmarking, hkeep marking hmarking]
      · rw [hothers i fun marking hmarking => hout marking (List.mem_cons_of_mem _ hmarking)]
        refine store_of_not_mem ?_
        rw [hlength]
        exact hout first (by simp)

/-! ### One flush -/

/-- **A value that has changed is touched**: it is not left untranslated. -/
theorem touched_of_ne {i : Nat} (hlow : marking.offset ≤ i)
    (hhigh : i < marking.offset + marking.size) (hstart : buffer.start mapped.1 ≤ i)
    (hstop : i < buffer.stop mapped.2)
    (hne : shift s.clone buffer.offset i ≠ shift flush.mem buffer.offset i) :
    marking.touched (flush.changedSpans buffer s.clone mapped) = true := by
  obtain ⟨span, hspan, hfirst, hlast⟩ :
      ∃ span ∈ flush.changedSpans buffer s.clone mapped, span.first ≤ i ∧ i ≤ span.last :=
    exists_collectPatchSpans_of_ne hstart (by omega) hne
  rw [Marking.touched, rangeOverlapsAny, List.any_eq_true]
  exact ⟨span, hspan, by rw [decide_eq_true_eq]; omega⟩

/-- The flushed part of the buffer. -/
theorem mapped_spec (hmapped : flush.mapped explicitHostUpdates buffer = some mapped) :
    buffer.start mapped.1 ≤ buffer.stop mapped.2 ∧ buffer.stop mapped.2 ≤ buffer.size := by
  unfold Flush.mapped at hmapped
  cases hclamp : clampMappedFlushRange flush.window flush.offset flush.size with
  | none => simp [hclamp] at hmapped
  | some range =>
      obtain ⟨mappedStart, mappedEnd⟩ := range
      simp only [hclamp] at hmapped
      split_ifs at hmapped with hmarkings hbefore hbehind
      cases hmapped
      have hlt := clampMappedFlushRange_lt hclamp
      unfold Buffer.start Buffer.stop
      simp only
      omega

/-- A marking of the buffer starts in the flushed part. -/
theorem start_le_of_mem_objectMarkings (hmarking : marking ∈ flush.objectMarkings buffer mapped) :
    buffer.start mapped.1 ≤ marking.offset := by
  obtain ⟨source, -, hsource⟩ := List.mem_filterMap.mp hmarking
  unfold Flush.objectMarking at hsource
  simp only at hsource
  split_ifs at hsource with hflushed hobject
  cases hsource
  unfold Buffer.start
  simp only
  omega

theorem changed_of_ne {i : Nat} (hlow : buffer.start mapped.1 ≤ i)
    (hhigh : i < buffer.start mapped.1 + (buffer.stop mapped.2 - buffer.start mapped.1))
    (hne : shift s.clone buffer.offset i ≠ shift flush.mem buffer.offset i) :
    s.Changed buffer flush mapped i :=
  ⟨hlow, hhigh, i, hhigh, hlow, rfl, hne⟩

/-- **The capture of a flush.**  The clone is brought up to date, where the spans have found a
change; the packet rewrites the blocks that have changed, and has the markings of the values that
are touched.  Without a packet no block has changed. -/
theorem flushBuffer_spec (hsize : buffer.size < 2 ^ 32)
    (hmapped : flush.mapped explicitHostUpdates buffer = some mapped) :
    (flushBuffer explicitHostUpdates buffer s.clone flush = (s.clone, []) ∧
      ((∀ marking ∈ flush.objectMarkings buffer mapped,
          marking.touched (flush.changedSpans buffer s.clone mapped) = false) ∨
        ∀ i, ¬ s.Changed buffer flush mapped i)) ∨
    ∃ bytes, flushBuffer explicitHostUpdates buffer s.clone flush =
        (copy s.clone flush.mem (buffer.offset + buffer.start mapped.1)
            (buffer.stop mapped.2 - buffer.start mapped.1),
          [⟨(flush.objectMarkings buffer mapped).filter
            (·.touched (flush.changedSpans buffer s.clone mapped)), bytes⟩]) ∧
      ∀ ptr, ∃ count, readPatch ptr buffer.replaySize bytes =
        some (rewrite (shift s.clone buffer.offset) (shift flush.mem buffer.offset)
          (buffer.start mapped.1) (buffer.stop mapped.2 - buffer.start mapped.1) ptr,
          count, []) := by
  obtain ⟨hstart, hstop⟩ := mapped_spec hmapped
  have hle := buffer.size_le
  unfold flushBuffer
  simp only [hmapped]
  by_cases hspans : flush.changedSpans buffer s.clone mapped = []
  · rw [if_pos hspans]
    refine Or.inl ⟨rfl, Or.inl fun marking _ => ?_⟩
    rw [hspans]
    rfl
  · rw [if_neg hspans]
    have hclone := writeOutObject_clone 0 buffer.offset s.clone flush.mem (buffer.start mapped.1)
      (buffer.stop mapped.2 - buffer.start mapped.1) (by omega)
    rcases writeOutObject_rewrite 0 buffer.offset s.clone flush.mem (buffer.start mapped.1)
      (buffer.stop mapped.2 - buffer.start mapped.1) (by omega) with
      ⟨hpackets, hsame, hequal⟩ | ⟨bytes, hpackets, hread⟩
    · rw [hpackets, hsame]
      exact Or.inl ⟨rfl, Or.inr fun i => not_rewritten_of_equal hequal⟩
    · rw [hpackets, hclone]
      exact Or.inr ⟨bytes, rfl, fun ptr => hread ptr buffer.replaySize (Or.inr (by omega))⟩

/-- What a flush leaves in the clone. -/
theorem shift_copy_clone (i : Nat) :
    shift (copy s.clone flush.mem (buffer.offset + buffer.start mapped.1)
        (buffer.stop mapped.2 - buffer.start mapped.1)) buffer.offset i =
      if buffer.start mapped.1 ≤ i ∧
          i < buffer.start mapped.1 + (buffer.stop mapped.2 - buffer.start mapped.1) then
        shift flush.mem buffer.offset i
      else
        shift s.clone buffer.offset i := by
  unfold shift copy
  refine if_congr ?_ rfl rfl
  omega

/-- **The replay of a flush.**  A value that is touched is translated from what the application
has flushed.  A value that is apart from those, none of whose blocks has changed, is left as it is
in both memories. -/
theorem replay_spec (hsize : buffer.size < 2 ^ 32)
    (hmapped : flush.mapped explicitHostUpdates buffer = some mapped)
    (hwell : WellMarked tables buffer flush mapped) (hagreed : Agreed buffer s flush mapped) :
    ∃ replay, exec (bufferUpdate tables buffer) s.replay
        (flushBuffer explicitHostUpdates buffer s.clone flush).2 = some replay ∧
      (∀ marking ∈ flush.objectMarkings buffer mapped,
        marking.touched (flush.changedSpans buffer s.clone mapped) = true →
        tables.translate marking.type
            (slice (shift (flushBuffer explicitHostUpdates buffer s.clone flush).1 buffer.offset)
              marking.offset marking.size) =
          some (slice replay marking.offset marking.size)) ∧
      ∀ marking : Marking, (∀ i, marking.offset ≤ i → i < marking.offset + marking.size →
          ¬ s.Changed buffer flush mapped i) →
        (∀ other ∈ flush.objectMarkings buffer mapped,
          other.touched (flush.changedSpans buffer s.clone mapped) = true →
          marking.Apart other) →
        slice (shift (flushBuffer explicitHostUpdates buffer s.clone flush).1 buffer.offset)
            marking.offset marking.size =
          slice (shift s.clone buffer.offset) marking.offset marking.size ∧
        slice replay marking.offset marking.size =
          slice s.replay marking.offset marking.size := by
  obtain ⟨hstart, hstop⟩ := mapped_spec hmapped
  have hle := buffer.size_le
  rcases flushBuffer_spec hsize hmapped with ⟨hflush, hnone⟩ | ⟨bytes, hflush, hread⟩
  · rw [hflush]
    refine ⟨s.replay, rfl, fun marking hmarking htouched => ?_, fun _ _ _ => ⟨rfl, rfl⟩⟩
    rcases hnone with huntouched | hunchanged
    · rw [huntouched marking hmarking] at htouched
      cases htouched
    · exact absurd (hagreed.touched marking hmarking htouched marking.offset le_rfl
        (Nat.lt_add_of_pos_right marking.size_pos)) (hunchanged _)
  · rw [hflush]
    set spans := flush.changedSpans buffer s.clone mapped with hspans
    set patched := rewrite (shift s.clone buffer.offset) (shift flush.mem buffer.offset)
      (buffer.start mapped.1) (buffer.stop mapped.2 - buffer.start mapped.1) s.replay with hpatched
    -- a value that is touched has arrived as a whole
    have harrived : ∀ marking ∈ (flush.objectMarkings buffer mapped).filter (·.touched spans),
        slice patched marking.offset marking.size =
          slice (shift flush.mem buffer.offset) marking.offset marking.size := by
      intro marking hmarking
      obtain ⟨hmem, htouched⟩ := List.mem_filter.mp hmarking
      exact slice_congr fun i hlow hhigh =>
        if_pos (hagreed.touched marking hmem htouched i hlow hhigh)
    have hinside : ∀ marking ∈ (flush.objectMarkings buffer mapped).filter (·.touched spans),
        marking.offset + marking.size ≤ buffer.replaySize := fun marking hmarking =>
      (hwell.inside marking (List.mem_filter.mp hmarking).1).trans (hstop.trans hle)
    have hknown : ∀ marking ∈ (flush.objectMarkings buffer mapped).filter (·.touched spans),
        (tables.translate marking.type
          (slice patched marking.offset marking.size)).isSome = true := by
      intro marking hmarking
      rw [harrived marking hmarking]
      exact hwell.known marking (List.mem_filter.mp hmarking).1
    obtain ⟨after, hafter, htranslated, hothers⟩ :=
      translateMarkedOffsets_spec hinside (hwell.apart.filter _) hknown
    have hupdate : bufferUpdate tables buffer s.replay
        ⟨(flush.objectMarkings buffer mapped).filter (·.touched spans), bytes⟩ = some after := by
      obtain ⟨count, hcount⟩ := hread s.replay
      rw [bufferUpdate, hcount]
      exact hafter
    refine ⟨after, exec_cons_eq_some_iff.mpr ⟨after, hupdate, rfl⟩,
      fun marking hmarking htouched => ?_, fun marking hunchanged hapart => ⟨?_, ?_⟩⟩
    · have hkept : marking ∈ (flush.objectMarkings buffer mapped).filter (·.touched spans) :=
        List.mem_filter.mpr ⟨hmarking, htouched⟩
      have hlow := start_le_of_mem_objectMarkings hmarking
      have hhigh := hwell.inside marking hmarking
      rw [← htranslated marking hkept, harrived marking hkept]
      congr 1
      refine slice_congr fun i hi hlt => ?_
      rw [shift_copy_clone, if_pos (by omega)]
    · refine slice_congr fun i hlow hhigh => ?_
      rw [shift_copy_clone]
      split_ifs with hin
      · by_contra hne
        exact hunchanged i hlow hhigh (changed_of_ne hin.1 hin.2 (Ne.symm hne))
      · rfl
    · refine slice_congr fun i hlow hhigh => ?_
      rw [hothers i fun other hother => (hapart other (List.mem_filter.mp hother).1
        (List.mem_filter.mp hother).2).not_mem hlow hhigh]
      exact if_neg (hunchanged i hlow hhigh)

/-- All marked values are translated. -/
def AllTranslated (tables : Tables) (buffer : Buffer) (s : State) : Prop :=
  ∀ marking ∈ s.marked, Translated tables buffer s marking

/-- **A flush whose difference and markings agree** keeps all marked values translated. -/
theorem step_translated (hsize : buffer.size < 2 ^ 32) (hall : AllTranslated tables buffer s)
    (hpromised : Promised tables explicitHostUpdates buffer flush)
    (hsettled : Settled explicitHostUpdates buffer s flush) :
    ∃ next, step tables explicitHostUpdates buffer s flush = some next ∧
      AllTranslated tables buffer next := by
  cases hmapped : flush.mapped explicitHostUpdates buffer with
  | none =>
      have hflush : flushBuffer explicitHostUpdates buffer s.clone flush = (s.clone, []) := by
        rw [flushBuffer, hmapped]
      refine ⟨{ s with marked := s.markedAfter explicitHostUpdates buffer flush }, ?_,
        fun marking hmarking => ?_⟩
      · rw [step, hflush]
        rfl
      · rw [State.markedAfter, hmapped] at hmarking
        exact hall marking hmarking
  | some mapped =>
      have hwell := hpromised mapped hmapped
      have hagreed := hsettled mapped hmapped
      obtain ⟨replay, hexec, htouched, hkept⟩ := replay_spec hsize hmapped hwell hagreed
      refine ⟨_, by rw [step, hexec]; rfl, fun marking hmarking => ?_⟩
      simp only [State.markedAfter, hmapped, List.mem_append] at hmarking
      -- a value that was marked before and is left alone
      have hleft : marking ∈ s.marked → (∀ i, marking.offset ≤ i →
          i < marking.offset + marking.size → ¬ s.Changed buffer flush mapped i) →
          (∀ other ∈ flush.objectMarkings buffer mapped,
            other.touched (flush.changedSpans buffer s.clone mapped) = true →
            marking.Apart other) →
          tables.translate marking.type
              (slice (shift (flushBuffer explicitHostUpdates buffer s.clone flush).1
                buffer.offset) marking.offset marking.size) =
            some (slice replay marking.offset marking.size) := by
        intro hmem hunchanged hapart
        obtain ⟨hclone, hreplay⟩ := hkept marking hunchanged hapart
        rw [hclone, hreplay]
        exact hall marking hmem
      rcases hmarking with hmarking | hmarking
      · cases hcase : marking.touched (flush.changedSpans buffer s.clone mapped) with
        | true => exact htouched marking hmarking hcase
        | false =>
            obtain ⟨hmem, hunchanged⟩ := hagreed.untouched marking hmarking hcase
            refine hleft hmem hunchanged fun other hother htouchedOther => ?_
            refine hwell.apart.forall hmarking hother fun heq => ?_
            rw [heq, htouchedOther] at hcase
            cases hcase
      · obtain ⟨hmem, hstays⟩ := List.mem_filter.mp hmarking
        simp only [Marking.stays, decide_eq_true_eq] at hstays
        exact hleft hmem (hagreed.staying marking hmarking)
          fun other hother _ => hstays.2 other hother

/-- **Marked values are translated once**, from what the application has flushed, in every run of
flushes whose difference and markings agree about them. -/
theorem marked_values_translated (hsize : buffer.size < 2 ^ 32) {flushes : List Flush}
    (hpromised : ∀ flush ∈ flushes, Promised tables explicitHostUpdates buffer flush)
    (hsettled : Along (step tables explicitHostUpdates buffer)
      (Settled explicitHostUpdates buffer) {} flushes) :
    ∃ s, exec (step tables explicitHostUpdates buffer) {} flushes = some s ∧
      AllTranslated tables buffer s :=
  exec_progress (fun _ _ hall hcond => step_translated hsize hall hcond.2 hcond.1)
    (fun _ hmarking => absurd hmarking List.not_mem_nil)
    (hsettled.and (along_of_forall hpromised))

end

/-! ## An address and a handle -/

/-- A handle of 32 equal bytes. -/
def equalBytes (byte : UInt8) : List UInt8 := List.replicate 32 byte

/-- Buffers at the captured addresses 0x1000 and 0x2000, which replay has at 0x2000 and 0x3000, and
a pipeline with one shader group, whose handle is another one in replay. -/
def shiftedTables : Tables where
  deviceAddressRemapping :=
    { remapper := (({} : AddressRemapper.Remapper).add 0x1000 1).add 0x2000 2
      heap := fun obj => ⟨.bound, false, 0x1000, obj * 0x1000 + 0x1000⟩ }
  accelerationStructureAddressRemapping :=
    { remapper := {}, heap := fun _ => ⟨.created, true, 0, 0⟩ }
  pipelines := [⟨32, equalBytes 1, 1, false, 32, equalBytes 9⟩]

def mixedBuffer : Buffer where
  offset := 0
  size := 48
  replaySize := 48
  size_le := le_rfl

/-- The handle, and behind it an address. -/
def mixedFlush (byte : UInt8) : Flush where
  mem := fun i => if i < 32 then 1 else if i = 33 then byte else 0
  window := some ⟨0, 48⟩
  offset := 0
  size := 48
  markings := some [⟨0, .shaderGroupHandle⟩, ⟨32, .bufferAddress⟩]

/-- The first flush sends the handle and the address 0x1000, and the second one the address 0x2000
in place of it. -/
theorem marked_values_translated_twoFlushes :
    (∀ flush ∈ [mixedFlush 0x10, mixedFlush 0x20],
      Promised shiftedTables true mixedBuffer flush) ∧
    Along (step shiftedTables true mixedBuffer) (Settled true mixedBuffer) {}
      [mixedFlush 0x10, mixedFlush 0x20] ∧
    ∃ s, exec (step shiftedTables true mixedBuffer) {} [mixedFlush 0x10, mixedFlush 0x20] =
        some s ∧ AllTranslated shiftedTables mixedBuffer s := by
  have hpromised : ∀ flush ∈ [mixedFlush 0x10, mixedFlush 0x20],
      Promised shiftedTables true mixedBuffer flush := by decide +kernel
  have hsettled : Along (step shiftedTables true mixedBuffer) (Settled true mixedBuffer) {}
      [mixedFlush 0x10, mixedFlush 0x20] := by decide +kernel
  exact ⟨hpromised, hsettled, marked_values_translated (by decide) hpromised hsettled⟩

/-! ## A value that is translated twice -/

def smallBuffer : Buffer where
  offset := 0
  size := 16
  replaySize := 16
  size_le := le_rfl

/-- The address 0x1000 in the second block of the buffer, and a byte in front of it. -/
def addressFlush (byte : UInt8) : Flush where
  mem := fun i => if i = 7 then byte else if i = 9 then 0x10 else 0
  window := some ⟨0, 16⟩
  offset := 0
  size := 16
  markings := some [⟨8, .bufferAddress⟩]

/-- The next flush changes the byte in front of the address.  The changed span starts there and
reaches over the address, whose block has not changed: it is translated once more. -/
theorem marked_value_translated_twice :
    (∀ flush ∈ [addressFlush 0, addressFlush 1], Promised shiftedTables true smallBuffer flush) ∧
    ∃ s, exec (step shiftedTables true smallBuffer) {} [addressFlush 0, addressFlush 1] = some s ∧
      ¬ AllTranslated shiftedTables smallBuffer s := by
  have heval : (exec (step shiftedTables true smallBuffer) {}
      [addressFlush 0, addressFlush 1]).map (fun s =>
        (s.marked, shiftedTables.translate .bufferAddress (slice (shift s.clone 0) 8 8),
          slice s.replay 8 8)) =
      some ([⟨8, .bufferAddress⟩], some [0, 0x20, 0, 0, 0, 0, 0, 0],
        [0, 0x30, 0, 0, 0, 0, 0, 0]) := by decide +kernel
  obtain ⟨s, hexec, hfacts⟩ := Option.map_eq_some_iff.mp heval
  simp only [Prod.mk.injEq] at hfacts
  obtain ⟨hmarked, hclone, hreplay⟩ := hfacts
  refine ⟨by decide +kernel, s, hexec, fun hall => ?_⟩
  have htranslated := hall ⟨8, .bufferAddress⟩ (by simp [hmarked])
  have htranslated : shiftedTables.translate .bufferAddress (slice (shift s.clone 0) 8 8) =
      some (slice s.replay 8 8) := htranslated
  rw [hclone, hreplay] at htranslated
  simp at htranslated

end MarkedOffsets
end Lavatube
