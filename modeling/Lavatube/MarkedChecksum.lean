import Lavatube.MarkedOffsets
import Lavatube.MemoryMirror
import Lavatube.ReverseTranslation
import Lavatube.ScratchRanges
import Lavatube.Lib.Sorting

/-!
# Checksums of marked memory

The trace has checksums of captured memory.  A replay has translated the marked values in its own
memory, so it puts the captured ones back in their places while it adds up the bytes, piece by
piece, without changing the memory.

* `checksumMarkedBufferRange` — the checksum.
* `backward` — the captured values put back, as rewriting in place.
* `checksum_eq` — the checksum is that of the memory with the captured values put back.
* `Recoverable` — the condition.
* `checksum_undoes_iff` — when it is the checksum of the captured memory.
-/

namespace Lavatube
namespace MarkedChecksum

open ByteMemory InPlace LittleEndian MarkedOffsets Transition
open MemoryMirror (adler32 adler32Loop)
open ReverseTranslation (AddressType Records Registry Tracked)
open ScratchRanges (findBufferByReplayAddress)

/-! ### Translation back -/

/-- What `find_buffer_by_replay_address` reads of a buffer. -/
def replayBuffer (t : Tracked) : ScratchRanges.Buffer where
  deviceAddress := UInt64.ofNat t.deviceAddress
  size := UInt64.ofNat t.size
  bound := decide (t.state = .bound)
  address_le := by
    have hlt := t.address_lt
    rw [UInt64.toNat_ofNat_of_lt' (by show _ < 2 ^ 64; omega),
      UInt64.toNat_ofNat_of_lt' (by show _ < 2 ^ 64; omega)]
    omega

/-- `reverse_translate_buffer_replay_address`: only bound buffers are looked at. -/
def reverseTranslateBufferReplayAddress (records : Records) (replayAddress : Nat) : Option Nat :=
  match findBufferByReplayAddress (records.buffers.map replayBuffer)
      (UInt64.ofNat replayAddress) 1 with
  | none => none
  | some (buffer, index) =>
      let capture := ((records.buffers[index]?).map Tracked.captureDeviceAddress).getD 0
      if capture = 0 then none
      else some ((capture + (replayAddress - buffer.deviceAddress.toNat)) % 2 ^ 64)

/-- `reverse_translate_acceleration_structure_replay_address`: as in the writer. -/
def reverseTranslateAccelerationStructureReplayAddress (records : Records)
    (replayAddress : Nat) : Option Nat :=
  records.reverseTranslateAccelerationStructureAddress replayAddress

/-- The pipeline with its handles of the replay in the place of the captured ones. -/
def replayed (pipeline : Pipeline) : Pipeline :=
  { pipeline with
    groupHandleSize := pipeline.groupHandleSizeReplay
    groupHandles := pipeline.groupHandlesReplay }

/-- The groups that `find_marked_shader_group_replay_handle_match` finds. -/
def replayMatches (pipeline : Pipeline) (handle : List UInt8) : List Nat :=
  (replayed pipeline).matches handle

/-- The search of `reverse_translate_shader_group_handle` in a pipeline. -/
def backMatches (pipeline : Pipeline) (handle : List UInt8) : List Nat :=
  if pipeline.captureReplay then pipeline.matches handle else replayMatches pipeline handle

/-- One round of `reverse_translate_shader_group_handle`; `none` is an abort. -/
def matchBack (handle : List UInt8) (found : Option (List UInt8)) (pipeline : Pipeline) :
    Option (Option (List UInt8)) :=
  match backMatches pipeline handle with
  | [] => some found
  | [group] =>
      -- a handle of two pipelines is ambiguous, as is one of two groups
      if found.isSome then none
      else if pipeline.groupHandleSize ≠ 32 then none
      else if group * 32 + 32 > pipeline.groupHandles.length then none
      else some (some ((pipeline.groupHandles.drop (group * 32)).take 32))
  | _ => none

/-- `reverse_translate_shader_group_handle`. -/
def reverseTranslateShaderGroupHandle (pipelines : List Pipeline) (handle : List UInt8) :
    Option (List UInt8) :=
  (exec (matchBack handle) none pipelines).join

/-- The bytes of an address in the checksum. -/
def addressBytes (lookup : Nat → Option Nat) (bytes : List UInt8) : Option (List UInt8) :=
  let current := decode bytes
  if current = 0 then some (encode 8 current) else (lookup current).map (encode 8)

/-- The bytes of a marked value in the checksum; `none` is an abort. -/
def capturedBytes (records : Records) (pipelines : List Pipeline) :
    MarkingType → List UInt8 → Option (List UInt8)
  | .bufferAddress, bytes => addressBytes (reverseTranslateBufferReplayAddress records) bytes
  | .accelerationStructureAddress, bytes =>
      addressBytes (reverseTranslateAccelerationStructureReplayAddress records) bytes
  | .shaderGroupHandle, bytes => reverseTranslateShaderGroupHandle pipelines bytes

/-! ### The checksum -/

/-- `adler32_update`. -/
def adler32Update (checksum : Nat) (data : List UInt8) : Nat :=
  adler32Loop (checksum % 2 ^ 16) (checksum / 2 ^ 16) data

/-- `marked_checksum_span`; all addresses have one marking type. -/
structure MarkedChecksumSpan where
  offset : Nat
  bytes : List UInt8
  handle : Bool
  index : Nat

/-- `marked_checksum_span_less`. -/
def markedChecksumSpanLess (a b : MarkedChecksumSpan) : Bool :=
  if a.offset ≠ b.offset then a.offset < b.offset else a.index < b.index

/-- One round of the first loop of `checksum_marked_buffer_range`, over a marking and its place. -/
def markedSpan (records : Records) (pipelines : List Pipeline) (ptr : Memory) (size : Nat)
    (entry : Marking × Nat) : Option MarkedChecksumSpan :=
  if entry.1.offset > size ∨ entry.1.size > size - entry.1.offset then none
  else
    (capturedBytes records pipelines entry.1.type
      (slice ptr entry.1.offset entry.1.size)).map fun bytes =>
        ⟨entry.1.offset, bytes, entry.1.type = .shaderGroupHandle, entry.2⟩

/-- The local variables of the second loop. -/
structure Progress where
  checksum : Nat := adler32 []
  processed : Nat := 0
  previous : Option MarkedChecksumSpan := none

/-- The checksum behind a span and what is in front of it. -/
def Progress.add (progress : Progress) (ptr : Memory) (span : MarkedChecksumSpan) : Progress where
  checksum := adler32Update
    (if span.offset > progress.processed then
      adler32Update progress.checksum
        (slice ptr progress.processed (span.offset - progress.processed))
    else progress.checksum) span.bytes
  processed := span.offset + span.bytes.length
  previous := some span

/-- One round of the second loop; `none` is an abort. -/
def checksumSpan (ptr : Memory) (progress : Progress) (span : MarkedChecksumSpan) :
    Option Progress :=
  match progress.previous with
  | some previous =>
      if span.offset = previous.offset then
        if span.handle = previous.handle ∧ span.bytes = previous.bytes then some progress else none
      else if span.offset < progress.processed then none
      else some (progress.add ptr span)
  | none => if span.offset < progress.processed then none else some (progress.add ptr span)

/-- `checksum_marked_buffer_range`. -/
def checksumMarkedBufferRange (sorting : Sorting fun a b => markedChecksumSpanLess a b = true)
    (records : Records) (pipelines : List Pipeline) (ptr : Memory) (size : Nat)
    (markings : List Marking) : Option Nat :=
  (markings.zipIdx.mapM (markedSpan records pipelines ptr size)).bind fun spans =>
    (exec (checksumSpan ptr) {} (sorting.sort spans)).map fun progress =>
      if progress.processed < size then
        adler32Update progress.checksum
          (slice ptr progress.processed (size - progress.processed))
      else progress.checksum

/-! ## Pieces -/

theorem pack_mod (a b : Nat) (ha : a < 2 ^ 16) : (b <<< 16 ||| a) % 2 ^ 16 = a := by
  rw [← Nat.shiftLeft_add_eq_or_of_lt ha, Nat.shiftLeft_eq]
  omega

theorem pack_div (a b : Nat) (ha : a < 2 ^ 16) : (b <<< 16 ||| a) / 2 ^ 16 = b := by
  rw [← Nat.shiftLeft_add_eq_or_of_lt ha, Nat.shiftLeft_eq]
  omega

/-- **The checksum goes on** where it has stopped. -/
theorem adler32Loop_append {a : Nat} (b : Nat) (ha : a < 65521) (front rest : List UInt8) :
    adler32Loop a b (front ++ rest) = adler32Update (adler32Loop a b front) rest := by
  induction front generalizing a b with
  | nil =>
      show _ = adler32Loop ((b <<< 16 ||| a) % 2 ^ 16) ((b <<< 16 ||| a) / 2 ^ 16) rest
      rw [pack_mod a b (by omega), pack_div a b (by omega)]
      rfl
  | cons byte front ih => exact ih _ (Nat.mod_lt _ (by decide))

theorem adler32_append (front rest : List UInt8) :
    adler32 (front ++ rest) = adler32Update (adler32 front) rest :=
  adler32Loop_append 0 (by decide) front rest

/-- The spans show the bytes of a memory in their places, and the other bytes below the end are as
in the replay. -/
structure Shows (ptr mem : Memory) (size : Nat) (spans : List MarkedChecksumSpan) : Prop where
  bytes : ∀ s ∈ spans, s.bytes = slice mem s.offset s.bytes.length
  inside : ∀ s ∈ spans, s.offset + s.bytes.length ≤ size
  same : ∀ s ∈ spans, ∀ t ∈ spans, s.offset = t.offset → s.handle = t.handle ∧
    s.bytes.length = t.bytes.length
  apart : ∀ s ∈ spans, ∀ t ∈ spans, s.offset < t.offset → s.offset + s.bytes.length ≤ t.offset
  others : ∀ i < size, (∀ s ∈ spans, ¬ (s.offset ≤ i ∧ i < s.offset + s.bytes.length)) →
    ptr i = mem i

/-- The state of the loop behind some spans. -/
structure Checked (mem : Memory) (size : Nat) (done : List MarkedChecksumSpan)
    (progress : Progress) : Prop where
  checksum : progress.checksum = adler32 (slice mem 0 progress.processed)
  processed_le : progress.processed ≤ size
  behind : ∀ t ∈ done, t.offset + t.bytes.length ≤ progress.processed
  previous : (progress.previous = none ∧ progress.processed = 0) ∨
    ∃ p ∈ done, progress.previous = some p ∧ progress.processed = p.offset + p.bytes.length

section

variable {ptr mem : Memory} {size : Nat} {done rest spans : List MarkedChecksumSpan}
variable {span : MarkedChecksumSpan} {progress : Progress}

/-- A piece between spans. -/
theorem checksum_gap (hshows : Shows ptr mem size spans) (hchecked : Checked mem size done progress)
    {stop : Nat} (hlow : progress.processed ≤ stop) (hstop : stop ≤ size)
    (hspans : ∀ t ∈ spans, t ∈ done ∨ stop ≤ t.offset) :
    adler32Update progress.checksum
      (slice ptr progress.processed (stop - progress.processed)) = adler32 (slice mem 0 stop) := by
  have hgap : slice ptr progress.processed (stop - progress.processed) =
      slice mem progress.processed (stop - progress.processed) := by
    refine slice_congr fun i hfrom hto => hshows.others i (by omega) fun t ht hcovers => ?_
    rcases hspans t ht with hdone | hlater
    · have := hchecked.behind t hdone
      omega
    · omega
  have hsum : stop = progress.processed + (stop - progress.processed) := by omega
  rw [hgap, hchecked.checksum, ← adler32_append]
  conv_rhs => rw [hsum, slice_add, Nat.zero_add]

/-- A span in the place of the previous one is passed over. -/
theorem checksumSpan_again (hshows : Shows ptr mem size spans)
    (hchecked : Checked mem size done progress) (hspan : span ∈ spans) {p : MarkedChecksumSpan}
    (hp : p ∈ done) (hspans : p ∈ spans) (hprevious : progress.previous = some p)
    (hprocessed : progress.processed = p.offset + p.bytes.length) (hoffset : span.offset = p.offset) :
    checksumSpan ptr progress span = some progress ∧
      Checked mem size (done ++ [span]) progress := by
  obtain ⟨hhandle, hlength⟩ := hshows.same span hspan p hspans hoffset
  have hbytes : span.bytes = p.bytes := by
    rw [hshows.bytes span hspan, hshows.bytes p hspans, hoffset, hlength]
  refine ⟨?_, hchecked.checksum, hchecked.processed_le, ?_, ?_⟩
  · simp only [checksumSpan, hprevious, if_pos hoffset, hhandle, hbytes, and_self, if_true]
  · intro t ht
    rcases List.mem_append.mp ht with ht | ht
    · exact hchecked.behind t ht
    · rw [List.mem_singleton.mp ht, hprocessed, hoffset, hlength]
  · exact .inr ⟨p, List.mem_append_left _ hp, hprevious, hprocessed⟩

/-- A span behind what is processed: the gap in front of it and its own bytes are added. -/
theorem checksumSpan_behind (hshows : Shows ptr mem size spans)
    (hchecked : Checked mem size done progress) (hspan : span ∈ spans)
    (hfrom : progress.processed ≤ span.offset)
    (hnew : ∀ p, progress.previous = some p → span.offset ≠ p.offset)
    (hspans : ∀ t ∈ spans, t ∈ done ∨ span.offset ≤ t.offset) :
    checksumSpan ptr progress span = some (progress.add ptr span) ∧
      Checked mem size (done ++ [span]) (progress.add ptr span) := by
  have hend := hshows.inside span hspan
  have hfront : (if span.offset > progress.processed then
      adler32Update progress.checksum
        (slice ptr progress.processed (span.offset - progress.processed))
      else progress.checksum) = adler32 (slice mem 0 span.offset) := by
    split_ifs with hgap
    · exact checksum_gap hshows hchecked hfrom (by omega) hspans
    · rw [hchecked.checksum, show span.offset = progress.processed by omega]
  refine ⟨?_, ?_, hend, ?_, ?_⟩
  · unfold checksumSpan
    cases hprevious : progress.previous with
    | none => exact if_neg (by omega)
    | some previous =>
        simp only [if_neg (hnew previous hprevious), if_neg (Nat.not_lt.mpr hfrom)]
  · show adler32Update _ span.bytes = adler32 (slice mem 0 (span.offset + span.bytes.length))
    rw [hfront, slice_add, Nat.zero_add, ← hshows.bytes span hspan, adler32_append]
  · intro t ht
    show _ ≤ span.offset + span.bytes.length
    rcases List.mem_append.mp ht with ht | ht
    · have := hchecked.behind t ht
      omega
    · rw [List.mem_singleton.mp ht]
  · exact .inr ⟨span, List.mem_append_right _ (List.mem_singleton_self _), rfl, rfl⟩

/-- **One span**: the bytes up to its end are checked. -/
theorem checksumSpan_checked (hshows : Shows ptr mem size spans)
    (hchecked : Checked mem size done progress)
    (hsplit : ∀ t, t ∈ spans ↔ t ∈ done ∨ t = span ∨ t ∈ rest)
    (hdone : ∀ t ∈ done, t.offset ≤ span.offset) (hrest : ∀ t ∈ rest, span.offset ≤ t.offset) :
    ∃ next, checksumSpan ptr progress span = some next ∧
      Checked mem size (done ++ [span]) next := by
  have hspan : span ∈ spans := (hsplit span).mpr (.inr (.inl rfl))
  have hspans : ∀ t ∈ spans, t ∈ done ∨ span.offset ≤ t.offset := by
    intro t ht
    rcases (hsplit t).mp ht with ht | rfl | ht
    · exact .inl ht
    · exact .inr le_rfl
    · exact .inr (hrest t ht)
  rcases hchecked.previous with ⟨hprevious, hzero⟩ | ⟨p, hp, hprevious, hprocessed⟩
  · refine ⟨_, checksumSpan_behind hshows hchecked hspan (by omega) (fun q hq => ?_) hspans⟩
    rw [hprevious] at hq
    cases hq
  · have hpspans : p ∈ spans := (hsplit p).mpr (.inl hp)
    by_cases hoffset : span.offset = p.offset
    · exact ⟨_, checksumSpan_again hshows hchecked hspan hp hpspans hprevious hprocessed hoffset⟩
    · have hlt : p.offset < span.offset := lt_of_le_of_ne (hdone p hp) (Ne.symm hoffset)
      have hfrom : progress.processed ≤ span.offset :=
        hprocessed.trans_le (hshows.apart p hpspans span hspan hlt)
      refine ⟨_, checksumSpan_behind hshows hchecked hspan hfrom (fun q hq => ?_) hspans⟩
      cases hprevious.symm.trans hq
      exact hoffset

/-- **All spans**, from the lowest one to the highest. -/
theorem exec_checksumSpan (hshows : Shows ptr mem size spans)
    (hsorted : rest.Pairwise fun a b => a.offset ≤ b.offset)
    (hsplit : ∀ t, t ∈ spans ↔ t ∈ done ∨ t ∈ rest)
    (hdone : ∀ t ∈ done, ∀ u ∈ rest, t.offset ≤ u.offset)
    (hchecked : Checked mem size done progress) :
    ∃ final, exec (checksumSpan ptr) progress rest = some final ∧
      Checked mem size (done ++ rest) final := by
  induction rest generalizing done progress with
  | nil => exact ⟨progress, rfl, by simpa using hchecked⟩
  | cons span rest ih =>
      obtain ⟨hfirst, hsorted⟩ := List.pairwise_cons.mp hsorted
      obtain ⟨next, hnext, hchecked⟩ := checksumSpan_checked hshows hchecked
        (fun t => by rw [hsplit, List.mem_cons]) (fun t ht => hdone t ht span List.mem_cons_self)
        hfirst
      have hsplit' : ∀ t, t ∈ spans ↔ t ∈ done ++ [span] ∨ t ∈ rest := by
        intro t
        rw [hsplit, List.mem_cons, List.mem_append, List.mem_singleton, or_assoc]
      have hdone' : ∀ t ∈ done ++ [span], ∀ u ∈ rest, t.offset ≤ u.offset := by
        intro t ht u hu
        rcases List.mem_append.mp ht with ht | ht
        · exact hdone t ht u (List.mem_cons_of_mem _ hu)
        · exact List.mem_singleton.mp ht ▸ hfirst u hu
      obtain ⟨final, hfinal, hall⟩ := ih hsorted hsplit' hdone' hchecked
      refine ⟨final, exec_cons_eq_some_iff.mpr ⟨next, hnext, hfinal⟩, ?_⟩
      rwa [List.append_assoc, List.singleton_append] at hall

end

/-! ## The checksum as one of a memory -/

theorem matchBack_length {handle : List UInt8} {found result : Option (List UInt8)}
    {pipeline : Pipeline} (hfound : ∀ bytes ∈ found, bytes.length = 32)
    (hmatch : matchBack handle found pipeline = some result) :
    ∀ bytes ∈ result, bytes.length = 32 := by
  unfold matchBack at hmatch
  split at hmatch
  · cases hmatch
    exact hfound
  · split_ifs at hmatch with hsome hsize hbound
    cases hmatch
    rintro bytes ⟨⟩
    rw [List.length_take, List.length_drop]
    omega
  · cases hmatch

theorem capturedBytes_length {records : Records} {pipelines : List Pipeline} {marking : Marking}
    {bytes bytes' : List UInt8}
    (h : capturedBytes records pipelines marking.type bytes = some bytes') :
    bytes'.length = marking.size := by
  have haddress : ∀ lookup, addressBytes lookup bytes = some bytes' → bytes'.length = 8 := by
    intro lookup h
    unfold addressBytes at h
    simp only at h
    split_ifs at h
    · cases h
      exact encode_length 8 _
    · obtain ⟨capture, -, rfl⟩ := Option.map_eq_some_iff.mp h
      exact encode_length 8 _
  unfold Marking.size
  cases htype : marking.type with
  | bufferAddress =>
      rw [htype] at h
      exact haddress _ h
  | accelerationStructureAddress =>
      rw [htype] at h
      exact haddress _ h
  | shaderGroupHandle =>
      rw [htype] at h
      replace h : (exec (matchBack bytes) none pipelines).join = some bytes' := h
      rw [Option.join_eq_some_iff] at h
      have hinv : ∀ found ∈ some bytes', found.length = 32 :=
        exec_invariant_of_step (fun _ _ _ hfound => matchBack_length hfound)
          (fun _ hbytes => absurd hbytes (Option.not_mem_none _)) h
      exact hinv bytes' rfl

/-- The captured values put back in their places. -/
def backward (records : Records) (pipelines : List Pipeline) : Rewriting Marking where
  start := Marking.offset
  width := Marking.size
  rewrite := fun marking => capturedBytes records pipelines marking.type
  length_rewrite := fun _ _ _ _ => capturedBytes_length

/-- The translated values in their places. -/
def forward (tables : Tables) (size : Nat) : Rewriting Marking where
  start := Marking.offset
  width := Marking.size
  rewrite := fun marking bytes =>
    if marking.offset + marking.size ≤ size then tables.translate marking.type bytes else none
  length_rewrite := by
    intro marking bytes bytes' hlength h
    split_ifs at h
    exact translate_length hlength h

theorem translateMarkedOffsets_eq (tables : Tables) (size : Nat) (ptr : Memory)
    (markings : List Marking) :
    translateMarkedOffsets tables size ptr markings =
      exec (InPlace.step (forward tables size)) ptr markings := by
  have hround : translateMarking tables size = InPlace.step (forward tables size) := by
    funext mem marking
    unfold translateMarking InPlace.step
    show _ = (if _ then _ else none : Option _).map _
    split_ifs
    · rfl
    · rfl
  rw [translateMarkedOffsets, hround]

section

variable {records : Records} {pipelines : List Pipeline} {ptr mem : Memory} {size : Nat}
variable {markings others : List Marking} {r : Rewriting Marking}

/-- Both have the markings themselves as places. -/
theorem apart_of_markings (hstart : r.start = Marking.offset) (hwidth : r.width = Marking.size)
    (hapart : markings.Pairwise Marking.Apart) : markings.Pairwise (InPlace.Apart r) := by
  refine hapart.imp fun {m n} hmn i hm hn => ?_
  unfold Within at hm hn
  rw [hstart, hwidth] at hm hn
  exact hmn.not_mem hm.1 hm.2 hn

theorem mapM_eq_some {A B : Type*} {f : A → Option B} {g : A → B} {l : List A}
    (h : ∀ a ∈ l, f a = some (g a)) : l.mapM f = some (l.map g) := by
  induction l with
  | nil => rfl
  | cons a l ih =>
      rw [List.forall_mem_cons] at h
      rw [List.mapM_cons, h.1, ih h.2]
      rfl

theorem exists_of_mapM {A B : Type*} {f : A → Option B} {l : List A} {l' : List B}
    (h : l.mapM f = some l') : ∀ a ∈ l, ∃ b, f a = some b := by
  induction l generalizing l' with
  | nil => exact List.forall_mem_nil _
  | cons a l ih =>
      rw [List.mapM_cons] at h
      obtain ⟨b, hb, hrest⟩ := Option.bind_eq_some_iff.mp h
      obtain ⟨l'', hl, -⟩ := Option.bind_eq_some_iff.mp hrest
      exact List.forall_mem_cons.mpr ⟨⟨b, hb⟩, ih hl⟩

/-- The span of a marking, with the bytes of a memory. -/
def spanIn (mem : Memory) (entry : Marking × Nat) : MarkedChecksumSpan :=
  ⟨entry.1.offset, slice mem entry.1.offset entry.1.size, entry.1.type = .shaderGroupHandle,
    entry.2⟩

/-- The spans of some markings in their order, with the bytes of a memory. -/
def spansIn (sorting : Sorting fun a b => markedChecksumSpanLess a b = true) (mem : Memory)
    (others : List Marking) : List MarkedChecksumSpan :=
  sorting.sort (others.zipIdx.map (spanIn mem))

theorem spanIn_length (m : Marking) (i : Nat) : (spanIn mem (m, i)).bytes.length = m.size :=
  slice_length _ _ _

theorem mem_spansIn (sorting : Sorting fun a b => markedChecksumSpanLess a b = true)
    {s : MarkedChecksumSpan} (hs : s ∈ spansIn sorting mem others) :
    ∃ m ∈ others, ∃ i, s = spanIn mem (m, i) := by
  obtain ⟨⟨m, i⟩, hentry, rfl⟩ := List.mem_map.mp (sorting.mem_sort.mp hs)
  exact ⟨m, List.mem_of_getElem? (List.mem_zipIdx_iff_getElem?.mp hentry), i, rfl⟩

theorem exists_span (sorting : Sorting fun a b => markedChecksumSpanLess a b = true)
    {m : Marking} (hm : m ∈ others) : ∃ i, spanIn mem (m, i) ∈ spansIn sorting mem others := by
  obtain ⟨i, hi⟩ := List.mem_iff_getElem?.mp hm
  exact ⟨i, sorting.mem_sort.mpr
    (List.mem_map.mpr ⟨(m, i), List.mem_zipIdx_iff_getElem?.mpr hi, rfl⟩)⟩

theorem spansIn_sorted (sorting : Sorting fun a b => markedChecksumSpanLess a b = true) :
    (spansIn sorting mem others).Pairwise fun a b => a.offset ≤ b.offset := by
  refine (sorting.sorted _).imp fun {a b} hless => ?_
  by_contra hlt
  refine hless ?_
  unfold markedChecksumSpanLess
  rw [if_pos (by omega)]
  exact decide_eq_true (by omega)

/-- The spans of markings that lie apart show a memory that has the other bytes of the one that is
checked. -/
theorem shows_spansIn (sorting : Sorting fun a b => markedChecksumSpanLess a b = true)
    (hinside : ∀ m ∈ markings, m.offset + m.size ≤ size) (hapart : markings.Pairwise Marking.Apart)
    (hothers : ∀ m, m ∈ others ↔ m ∈ markings)
    (hgaps : ∀ i, (∀ m ∈ markings, ¬ (m.offset ≤ i ∧ i < m.offset + m.size)) → mem i = ptr i) :
    Shows ptr mem size (spansIn sorting mem others) := by
  have hfrom : ∀ s ∈ spansIn sorting mem others, ∃ m ∈ markings, ∃ i, s = spanIn mem (m, i) := by
    intro s hs
    obtain ⟨m, hm, i, hspan⟩ := mem_spansIn sorting hs
    exact ⟨m, (hothers m).mp hm, i, hspan⟩
  have hdifferent : ∀ m ∈ markings, ∀ n ∈ markings, m ≠ n → m.Apart n :=
    fun m hm n hn hne => hapart.forall hm hn hne
  constructor
  · intro s hs
    obtain ⟨m, hm, i, rfl⟩ := hfrom s hs
    rw [spanIn_length]
    rfl
  · intro s hs
    obtain ⟨m, hm, i, rfl⟩ := hfrom s hs
    rw [spanIn_length]
    exact hinside m hm
  · intro s hs t ht hoffset
    obtain ⟨m, hm, i, rfl⟩ := hfrom s hs
    obtain ⟨n, hn, j, rfl⟩ := hfrom t ht
    replace hoffset : m.offset = n.offset := hoffset
    -- markings are not empty, so that two of them with one offset are not apart
    have hsame : m = n := by
      by_contra hne
      have hm := m.size_pos
      have hn := n.size_pos
      rcases hdifferent m ‹_› n ‹_› hne with h | h
      · omega
      · omega
    subst hsame
    exact ⟨rfl, rfl⟩
  · intro s hs t ht hlt
    obtain ⟨m, hm, i, rfl⟩ := hfrom s hs
    obtain ⟨n, hn, j, rfl⟩ := hfrom t ht
    replace hlt : m.offset < n.offset := hlt
    rw [spanIn_length]
    show m.offset + m.size ≤ n.offset
    have hne : m ≠ n := fun h => by rw [h] at hlt; omega
    rcases hdifferent m hm n hn hne with h | h
    · exact h
    · omega
  · intro i hi hout
    refine (hgaps i fun m hm hin => ?_).symm
    obtain ⟨j, hj⟩ := exists_span sorting ((hothers m).mpr hm)
    exact hout _ hj (by rw [spanIn_length]; exact hin)

/-- What is checked if the captured values in their places are those of a memory. -/
theorem checksum_of_shown (sorting : Sorting fun a b => markedChecksumSpanLess a b = true)
    (hinside : ∀ m ∈ markings, m.offset + m.size ≤ size) (hapart : markings.Pairwise Marking.Apart)
    (hothers : ∀ m, m ∈ others ↔ m ∈ markings)
    (hbytes : ∀ m ∈ markings, capturedBytes records pipelines m.type
      (slice ptr m.offset m.size) = some (slice mem m.offset m.size))
    (hgaps : ∀ i, (∀ m ∈ markings, ¬ (m.offset ≤ i ∧ i < m.offset + m.size)) → mem i = ptr i) :
    checksumMarkedBufferRange sorting records pipelines ptr size others =
      some (adler32 (slice mem 0 size)) := by
  have hspans : others.zipIdx.mapM (markedSpan records pipelines ptr size) =
      some (others.zipIdx.map (spanIn mem)) := by
    refine mapM_eq_some fun entry hentry => ?_
    have hmem := (hothers _).mp (List.mem_of_getElem? (List.mem_zipIdx_iff_getElem?.mp hentry))
    have hin := hinside _ hmem
    unfold markedSpan
    rw [if_neg (by omega), hbytes _ hmem]
    rfl
  have hshows := shows_spansIn sorting hinside hapart hothers hgaps
  have hstart : Checked mem size [] {} :=
    ⟨rfl, Nat.zero_le _, List.forall_mem_nil _, .inl ⟨rfl, rfl⟩⟩
  have hsorted : (spansIn sorting mem others).Pairwise fun a b => a.offset ≤ b.offset :=
    spansIn_sorted sorting
  obtain ⟨final, hfinal, hchecked⟩ :=
    exec_checksumSpan hshows hsorted (by simp) (by simp) hstart
  rw [spansIn] at hfinal
  rw [checksumMarkedBufferRange, hspans, Option.bind_some, hfinal, Option.map_some]
  rw [List.nil_append] at hchecked
  have hle := hchecked.processed_le
  -- after the last span the rest of the range is checked as it is
  split_ifs with hrest
  · rw [checksum_gap hshows hchecked hle le_rfl fun t ht => .inl ht]
  · rw [hchecked.checksum, show final.processed = size by omega]

/-- **The checksum** is that of the memory with the captured values put back in their places. -/
theorem checksum_eq (sorting : Sorting fun a b => markedChecksumSpanLess a b = true)
    (hinside : ∀ m ∈ markings, m.offset + m.size ≤ size) (hapart : markings.Pairwise Marking.Apart)
    (hothers : ∀ m, m ∈ others ↔ m ∈ markings) :
    checksumMarkedBufferRange sorting records pipelines ptr size others =
      (exec (InPlace.step (backward records pipelines)) ptr markings).map fun mem =>
        adler32 (slice mem 0 size) := by
  have hplaces : markings.Pairwise (InPlace.Apart (backward records pipelines)) :=
    apart_of_markings rfl rfl hapart
  cases hback : exec (InPlace.step (backward records pipelines)) ptr markings with
  | some mem =>
      obtain ⟨hcontent, hgaps⟩ := (exec_apart_iff hplaces).mp hback
      exact checksum_of_shown sorting hinside hapart hothers hcontent hgaps
  | none =>
      cases hspans : others.zipIdx.mapM (markedSpan records pipelines ptr size) with
      | none =>
          rw [checksumMarkedBufferRange, hspans]
          rfl
      | some spans =>
          exfalso
          obtain ⟨mem, hmem⟩ : ∃ mem,
              exec (InPlace.step (backward records pipelines)) ptr markings = some mem := by
            refine exec_apart_exists hplaces fun m hm => ?_
            obtain ⟨i, hi⟩ := List.mem_iff_getElem?.mp ((hothers m).mpr hm)
            obtain ⟨span, hspan⟩ :=
              exists_of_mapM hspans (m, i) (List.mem_zipIdx_iff_getElem?.mpr hi)
            unfold markedSpan at hspan
            split_ifs at hspan
            obtain ⟨bytes, hbytes, -⟩ := Option.map_eq_some_iff.mp hspan
            exact ⟨bytes, hbytes⟩
          rw [hmem] at hback
          cases hback

end

/-! ## Handles -/

/-- What the translation puts in the place of a handle. -/
def replayHandle (pipeline : Pipeline) (group : Nat) (handle : List UInt8) : List UInt8 :=
  if pipeline.captureReplay then handle
  else (pipeline.groupHandlesReplay.drop (group * 32)).take 32

/-- The group has a handle in the replay. -/
def HasReplayHandle (pipeline : Pipeline) (group : Nat) : Prop :=
  pipeline.captureReplay = true ∨ (pipeline.groupHandleSizeReplay = 32 ∧
    group * 32 + 32 ≤ pipeline.groupHandlesReplay.length)

/-- **Unambiguous handles**: one group of one pipeline has it in the capture, and the handle of this
group in the replay is that of no other group. -/
def Unambiguous (pipelines : List Pipeline) (handle : List UInt8) : Prop :=
  ∃ front pipeline back group, pipelines = front ++ pipeline :: back ∧
    (∀ other, other ∈ pipeline.matches handle ↔ other = group) ∧
    (∀ q ∈ front ++ back, q.matches handle = []) ∧ HasReplayHandle pipeline group ∧
    (∀ other ∈ backMatches pipeline (replayHandle pipeline group handle), other = group) ∧
    ∀ q ∈ front ++ back, backMatches q (replayHandle pipeline group handle) = []

section

variable {pipelines front back : List Pipeline} {pipeline : Pipeline} {group : Nat}
variable {handle : List UInt8}

theorem mem_matches : group ∈ pipeline.matches handle ↔
    pipeline.groupHandleSize = 32 ∧ pipeline.groupHandles ≠ [] ∧
      (group < pipeline.groupHandles.length / 32 ∧
        (pipeline.groupCount ≠ 0 → group < pipeline.groupCount)) ∧
      (pipeline.groupHandles.drop (group * 32)).take 32 = handle := by
  unfold Pipeline.matches
  by_cases hempty : pipeline.groupHandleSize ≠ 32 ∨ pipeline.groupHandles = []
  · rw [if_pos hempty]
    refine iff_of_false List.not_mem_nil fun h => ?_
    rcases hempty with hsize | hnil
    · exact hsize h.1
    · exact h.2.1 hnil
  · rw [if_neg hempty]
    obtain ⟨hsize, hnil⟩ := not_or.mp hempty
    simp only [List.mem_filter, List.mem_range, decide_eq_true_eq, not_not.mp hsize, hnil,
      ne_eq, not_false_eq_true, true_and]
    refine and_congr_left fun _ => ?_
    split_ifs with hcount
    · omega
    · omega

theorem eq_singleton_of_mem {A : Type*} {l : List A} {a : A} (hnodup : l.Nodup)
    (hall : ∀ b, b ∈ l ↔ b = a) : l = [a] :=
  List.perm_singleton.mp
    ((List.perm_ext_iff_of_nodup hnodup (List.nodup_singleton a)).mpr (by simpa using hall))

theorem nodup_matches : (pipeline.matches handle).Nodup := by
  unfold Pipeline.matches
  split_ifs
  · exact List.nodup_nil
  · exact List.nodup_range.filter _

theorem nodup_backMatches : (backMatches pipeline handle).Nodup := by
  unfold backMatches replayMatches
  split_ifs
  · exact nodup_matches
  · exact nodup_matches

/-- A search in which one pipeline has something. -/
theorem exec_one {step : Option (List UInt8) → Pipeline → Option (Option (List UInt8))}
    {bytes : List UInt8} (hothers : ∀ q ∈ front ++ back, ∀ found, step found q = some found)
    (hone : step none pipeline = some (some bytes)) :
    exec step none (front ++ pipeline :: back) = some (some bytes) := by
  have hskip : ∀ (l : List Pipeline) found, (∀ q ∈ l, step found q = some found) →
      exec step found l = some found := by
    intro l found
    induction l with
    | nil => exact fun _ => rfl
    | cons q l ih =>
        intro h
        rw [List.forall_mem_cons] at h
        exact exec_cons_eq_some_iff.mpr ⟨found, h.1, ih h.2⟩
  refine exec_append_eq_some_iff.mpr ⟨none, hskip front none fun q hq => ?_, ?_⟩
  · exact hothers q (List.mem_append_left _ hq) none
  · refine exec_cons_eq_some_iff.mpr ⟨some bytes, hone, hskip back _ fun q hq => ?_⟩
    exact hothers q (List.mem_append_right _ hq) _

/-- **An unambiguous handle** is translated, and found again. -/
theorem handle_recovered (h : Unambiguous pipelines handle) :
    ∃ bytes, rewriteMarkedShaderGroupHandle pipelines handle = some bytes ∧
      reverseTranslateShaderGroupHandle pipelines bytes = some handle := by
  obtain ⟨front, pipeline, back, group, rfl, hgroup, hothers, hreplay, hback, hbackOthers⟩ := h
  have hmatches : pipeline.matches handle = [group] := eq_singleton_of_mem nodup_matches hgroup
  obtain ⟨hsize, hnil, ⟨hmax, hcount⟩, hhandle⟩ := mem_matches.mp ((hgroup group).mpr rfl)
  have hbackGroup : group ∈ backMatches pipeline (replayHandle pipeline group handle) := by
    unfold backMatches replayHandle
    split_ifs with hcapture
    · exact (hgroup group).mpr rfl
    · obtain ⟨hsize', hlength⟩ := hreplay.resolve_left hcapture
      refine mem_matches.mpr ⟨hsize', ?_, ⟨?_, hcount⟩, rfl⟩
      · intro hempty
        replace hempty : pipeline.groupHandlesReplay = [] := hempty
        rw [hempty] at hlength
        simp at hlength
      · show group < pipeline.groupHandlesReplay.length / 32
        omega
  have hbackMatches : backMatches pipeline (replayHandle pipeline group handle) = [group] :=
    eq_singleton_of_mem nodup_backMatches fun other =>
      ⟨hback other, fun h => h ▸ hbackGroup⟩
  refine ⟨replayHandle pipeline group handle, ?_, ?_⟩
  · have hrun : exec (matchPipeline handle) none (front ++ pipeline :: back) =
        some (some (replayHandle pipeline group handle)) := by
      refine exec_one (fun q hq found => by rw [matchPipeline, hothers q hq]) ?_
      unfold matchPipeline replayHandle
      rw [hmatches]
      simp only [Option.isSome_none, Bool.false_eq_true, if_false]
      split_ifs with hcapture hsize' hlength
      · rfl
      · exact absurd (hreplay.resolve_left hcapture).1 hsize'
      · have := (hreplay.resolve_left hcapture).2
        omega
      · rfl
    rw [rewriteMarkedShaderGroupHandle, hrun]
    rfl
  · have hrun : exec (matchBack (replayHandle pipeline group handle)) none
        (front ++ pipeline :: back) = some (some handle) := by
      refine exec_one (fun q hq found => by rw [matchBack, hbackOthers q hq]) ?_
      unfold matchBack
      rw [hbackMatches]
      simp only [Option.isSome_none, Bool.false_eq_true, if_false, hsize, ne_eq, not_true_eq_false]
      rw [if_neg (by omega), hhandle]
    rw [reverseTranslateShaderGroupHandle, hrun]
    rfl

end

/-! ## Addresses -/

/-- What the replay translates with. -/
def markedTables {records : Records} (tables : ReverseTranslation.Tables records)
    (pipelines : List Pipeline) : Tables where
  deviceAddressRemapping :=
    ⟨AddressRemapper.run tables.buffers.calls, ReverseTranslation.heap false records.buffers⟩
  accelerationStructureAddressRemapping :=
    ⟨AddressRemapper.run tables.accelerationStructures.calls,
      ReverseTranslation.heap true records.accelerationStructures⟩
  pipelines := pipelines

section

variable {records : Records} {pipelines : List Pipeline} {value : List UInt8}

theorem accepts_replayBuffer {t : Tracked} {x : Nat} (hx : x < 2 ^ 64) :
    (replayBuffer t).accepts (UInt64.ofNat x) 1 = true ↔
      t.state = .bound ∧ t.deviceAddress ≠ 0 ∧ t.HasReplayed x := by
  have hlt := t.address_lt
  have haddress : (UInt64.ofNat t.deviceAddress).toNat = t.deviceAddress :=
    UInt64.toNat_ofNat_of_lt' (show _ < 2 ^ 64 by omega)
  have hsize : (UInt64.ofNat t.size).toNat = t.size :=
    UInt64.toNat_ofNat_of_lt' (show _ < 2 ^ 64 by omega)
  have hvalue : (UInt64.ofNat x).toNat = x := UInt64.toNat_ofNat_of_lt' hx
  rw [ScratchRanges.accepts_iff]
  unfold ScratchRanges.Buffer.Live ReverseTranslation.Tracked.HasReplayed
  have hsub : t.deviceAddress ≤ x →
      (UInt64.ofNat x - UInt64.ofNat t.deviceAddress).toNat = x - t.deviceAddress := by
    intro hle
    rw [UInt64.toNat_sub_of_le _ _ (UInt64.le_iff_toNat_le.mpr (by omega)), hvalue, haddress]
  simp only [replayBuffer, decide_eq_true_eq, ne_eq, ← UInt64.toNat_inj, UInt64.le_iff_toNat_le,
    UInt64.toNat_add, haddress, hsize, hvalue, UInt64.toNat_zero, UInt64.toNat_one]
  constructor
  · rintro ⟨⟨hbound, hne⟩, -, hle, hfits⟩
    rw [hsub hle] at hfits
    exact ⟨hbound, hne, hle, by omega⟩
  · rintro ⟨hbound, hne, hle, hhigh⟩
    rw [hsub hle]
    exact ⟨⟨hbound, hne⟩, by omega, hle, by omega⟩

/-- **An address of a live buffer in the replay** is found in it exactly if the buffer is bound. -/
theorem reverseTranslateBufferReplayAddress_eq (hdistinct : records.Distinct) {b : Tracked}
    (hb : b ∈ records.buffers) (hlive : b.live = true) (hcaptured : b.captureDeviceAddress ≠ 0)
    {x : Nat} (hx : b.HasReplayed x) (hlt : x < 2 ^ 64) :
    reverseTranslateBufferReplayAddress records x =
      if b.state = .bound then some ((b.captureDeviceAddress + (x - b.deviceAddress)) % 2 ^ 64)
      else none := by
  obtain ⟨i, hi⟩ := List.mem_iff_getElem?.mp hb
  have haddress := (hdistinct.buffers_addressed b hb hlive).mp hcaptured
  -- a buffer that accepts the address is the live one
  have honly : ∀ u j, (records.buffers.map replayBuffer)[j]? = some u →
      u.accepts (UInt64.ofNat x) 1 = true → j = i ∧ u = replayBuffer b ∧ b.state = .bound := by
    intro u j hu haccepts
    rw [List.getElem?_map] at hu
    obtain ⟨v, hv, rfl⟩ := Option.map_eq_some_iff.mp hu
    obtain ⟨hbound, haddress', hx'⟩ := (accepts_replayBuffer hlt).mp haccepts
    have hlive' : v.live = true := decide_eq_true (by simp [hbound])
    have hcaptured' :=
      (hdistinct.buffers_addressed v (List.mem_of_getElem? hv) hlive').mpr haddress'
    have hplace := hdistinct.eq_of_buffers hi hv hlive hlive' hcaptured hcaptured' (.inr ⟨hx, hx'⟩)
    subst hplace
    cases hi.symm.trans hv
    exact ⟨rfl, rfl, hbound⟩
  have hreplay : (replayBuffer b).deviceAddress.toNat = b.deviceAddress := by
    have hbound := b.address_lt
    exact UInt64.toNat_ofNat_of_lt' (show _ < 2 ^ 64 by omega)
  unfold reverseTranslateBufferReplayAddress
  cases hfound :
      findBufferByReplayAddress (records.buffers.map replayBuffer) (UInt64.ofNat x) 1 with
  | none =>
      rw [if_neg fun hbound => ?_]
      have hthere : (findBufferByReplayAddress (records.buffers.map replayBuffer)
          (UInt64.ofNat x) 1).isSome := by
        refine ScratchRanges.foldl_isSome (.inr ⟨(replayBuffer b, i), ?_, ?_⟩)
        · rw [List.mem_zipIdx_iff_getElem?, List.getElem?_map, hi]
          rfl
        · exact (accepts_replayBuffer hlt).mpr ⟨hbound, haddress, hx⟩
      rw [hfound] at hthere
      cases hthere
  | some found =>
      obtain ⟨u, j⟩ := found
      rcases ScratchRanges.mem_of_foldl hfound with hnone | ⟨hmem, haccepts⟩
      · cases hnone
      · obtain ⟨rfl, rfl, hbound⟩ := honly u j (List.mem_zipIdx_iff_getElem?.mp hmem) haccepts
        simp only [hi, Option.map_some, Option.getD_some, if_neg hcaptured, hreplay,
          if_pos hbound]

/-- **A marked address in a buffer**. -/
theorem buffer_place (pipelines : List Pipeline) (hdistinct : records.Distinct)
    (tables : ReverseTranslation.Tables records) (hlength : value.length = 8) {b : Tracked}
    (hb : b ∈ records.buffers) (hlive : b.live = true)
    (hcaptured : b.captureDeviceAddress ≠ 0) (hhas : b.HasCaptured (decode value)) :
    ∃ bytes, (markedTables tables pipelines).translate .bufferAddress value = some bytes ∧
      capturedBytes records pipelines .bufferAddress bytes =
        if b.state = .bound then some value else none := by
  obtain ⟨i, hi⟩ := List.mem_iff_getElem?.mp hb
  have hlt : decode value < 2 ^ 64 := by simpa [hlength] using decode_lt value
  have haddress := (hdistinct.buffers_addressed b hb hlive).mp hcaptured
  have hbound := b.address_lt
  have htranslate := ReverseTranslation.translate_buffer hdistinct tables hi hlive hcaptured hhas
  obtain ⟨hlow, hhigh⟩ := hhas
  generalize hx : b.deviceAddress + (decode value - b.captureDeviceAddress) = x at htranslate
  have hreplayed : b.HasReplayed x := ⟨by omega, by omega⟩
  have hback : b.captureDeviceAddress + (x - b.deviceAddress) = decode value := by omega
  refine ⟨encode 8 x, ?_, ?_⟩
  · show checkedAddress (tables.translate .buffer (decode value)) = _
    rw [htranslate, checkedAddress, if_pos (by omega)]
  · have hdecode : decode (encode 8 x) = x := by
      have hsmall : x < 2 ^ 64 := by omega
      exact decode_encode hsmall
    simp only [capturedBytes, addressBytes, hdecode]
    rw [if_neg (by omega), reverseTranslateBufferReplayAddress_eq hdistinct hb hlive hcaptured
      hreplayed (by omega), hback, Nat.mod_eq_of_lt hlt]
    split_ifs
    · rw [Option.map_some, ← hlength, encode_decode]
    · rfl

/-- **A marked address of an acceleration structure**. -/
theorem structure_place (pipelines : List Pipeline) (hdistinct : records.Distinct)
    (tables : ReverseTranslation.Tables records) {t : Tracked}
    (ht : t ∈ records.accelerationStructures) (hlive : t.live = true)
    (hcapture : t.captureDeviceAddress = decode value) (hzero : decode value ≠ 0) :
    ∃ bytes first, (markedTables tables pipelines).translate .accelerationStructureAddress value =
        some bytes ∧
      records.accelerationStructures.find? (·.deviceAddress = t.deviceAddress) = some first ∧
      capturedBytes records pipelines .accelerationStructureAddress bytes =
        if first.captureDeviceAddress = 0 then none
        else some (encode 8 first.captureDeviceAddress) := by
  have haddress := (hdistinct.structures_addressed t ht hlive).2.mp (hcapture ▸ hzero)
  have hbound := t.address_lt
  have htranslate := ReverseTranslation.translate_structure hdistinct tables ht hlive hcapture hzero
  cases hfirst : records.accelerationStructures.find? (·.deviceAddress = t.deviceAddress) with
  | none => exact absurd (decide_eq_true rfl) (List.find?_eq_none.mp hfirst t ht)
  | some first =>
      refine ⟨encode 8 t.deviceAddress, first, ?_, rfl, ?_⟩
      · show checkedAddress (tables.translate .accelerationStructure (decode value)) = _
        rw [htranslate, checkedAddress, if_pos haddress]
      · have hdecode : decode (encode 8 t.deviceAddress) = t.deviceAddress := by
          have hsmall : t.deviceAddress < 2 ^ 64 := by omega
          exact decode_encode hsmall
        simp only [capturedBytes, addressBytes, hdecode]
        rw [if_neg haddress, reverseTranslateAccelerationStructureReplayAddress,
          ReverseTranslation.Records.reverseTranslateAccelerationStructureAddress, hfirst]
        simp only
        split_ifs
        · rfl
        · rfl

/-- Zero is refused, as is asserted. -/
theorem translate_zero (pipelines : List Pipeline) (tables : ReverseTranslation.Tables records)
    (hzero : decode value = 0) {type : MarkingType} (htype : type ≠ .shaderGroupHandle) :
    (markedTables tables pipelines).translate type value = none := by
  cases type with
  | bufferAddress =>
      show checkedAddress (tables.translate .buffer (decode value)) = none
      have hnull : tables.translate .buffer 0 = 0 := tables.buffers.translateAddress_zero
      rw [hzero, hnull]
      rfl
  | accelerationStructureAddress =>
      show checkedAddress (tables.translate .accelerationStructure (decode value)) = none
      have hnull : tables.translate .accelerationStructure 0 = 0 :=
        tables.accelerationStructures.translateAddress_zero
      rw [hzero, hnull]
      rfl
  | shaderGroupHandle => exact absurd rfl htype

end

/-! ## When the checksum is that of the captured memory -/

/-- A marked value of the capture: an address of a live object or zero, or a handle. -/
def KnownValue (records : Records) (pipelines : List Pipeline) : MarkingType → List UInt8 → Prop
  | .bufferAddress, value => decode value = 0 ∨ records.Captured .buffer (decode value)
  | .accelerationStructureAddress, value =>
      decode value = 0 ∨ records.Captured .accelerationStructure (decode value)
  | .shaderGroupHandle, value => Unambiguous pipelines value

/-- The captured memory as the lookups see it: the address of each marked acceleration structure is
that of the first one that ever had its address in the replay. -/
structure Seen (records : Records) (markings : List Marking) (ptr mem : Memory) : Prop where
  structures : ∀ m ∈ markings, m.type = .accelerationStructureAddress →
    ∃ t ∈ records.accelerationStructures, t.live = true ∧
      t.captureDeviceAddress = decode (slice ptr m.offset m.size) ∧
      ∃ first, records.accelerationStructures.find? (·.deviceAddress = t.deviceAddress) =
        some first ∧ first.captureDeviceAddress ≠ 0 ∧
          slice mem m.offset m.size = encode 8 first.captureDeviceAddress
  others : ∀ i, (∀ m ∈ markings, m.type = .accelerationStructureAddress →
    ¬ (m.offset ≤ i ∧ i < m.offset + m.size)) → mem i = ptr i

/-- **The condition**: no marked address is zero, the buffers that have the marked addresses are
bound, and the lookups see the captured memory, or one with the same checksum. -/
structure Recoverable (records : Records) (size : Nat) (markings : List Marking)
    (ptr : Memory) : Prop where
  nonzero : ∀ m ∈ markings, m.type ≠ .shaderGroupHandle →
    decode (slice ptr m.offset m.size) ≠ 0
  bound : ∀ m ∈ markings, m.type = .bufferAddress → ∀ b ∈ records.buffers, b.live = true →
    b.captureDeviceAddress ≠ 0 → b.HasCaptured (decode (slice ptr m.offset m.size)) →
      b.state = .bound
  seen : ∃ mem, Seen records markings ptr mem ∧
    adler32 (slice mem 0 size) = adler32 (slice ptr 0 size)

section

variable {records : Records} {pipelines : List Pipeline} {ptr mem : Memory} {size : Nat}
variable {markings : List Marking} {m : Marking}

/-- **The captured memory itself is seen** if the lookup of no marked acceleration structure comes
across another one. -/
theorem seen_self (hknown : ∀ m ∈ markings,
      KnownValue records pipelines m.type (slice ptr m.offset m.size))
    (hnonzero : ∀ m ∈ markings, m.type ≠ .shaderGroupHandle →
      decode (slice ptr m.offset m.size) ≠ 0)
    (hfirst : ∀ m ∈ markings, m.type = .accelerationStructureAddress →
      ¬ records.Shadowed (decode (slice ptr m.offset m.size))) :
    Seen records markings ptr ptr := by
  refine ⟨fun m hm htype => ?_, fun _ _ => rfl⟩
  have hvalue := hknown m hm
  have hne := hnonzero m hm (by rw [htype]; decide)
  rw [htype] at hvalue
  obtain ⟨-, t, ht, hlive, hcapture⟩ := hvalue.resolve_left hne
  refine ⟨t, ht, hlive, hcapture, ?_⟩
  cases hfound : records.accelerationStructures.find? (·.deviceAddress = t.deviceAddress) with
  | none => exact absurd (decide_eq_true rfl) (List.find?_eq_none.mp hfound t ht)
  | some first =>
      have hsame : first.captureDeviceAddress = decode (slice ptr m.offset m.size) := by
        by_contra hother
        exact hfirst m hm htype ⟨t, ht, hlive, hcapture, first, hfound, hother⟩
      have hsize : m.size = 8 := by rw [Marking.size, htype]
      refine ⟨first, rfl, hsame ▸ hne, ?_⟩
      have hself := encode_decode (slice ptr m.offset 8)
      rw [slice_length] at hself
      rw [hsame, hsize, hself]

/-- What other marked values are in the memory that is seen. -/
theorem slice_of_seen (hapart : markings.Pairwise Marking.Apart)
    (hseen : Seen records markings ptr mem) (hm : m ∈ markings) (htype : m.type ≠ .accelerationStructureAddress) :
    slice mem m.offset m.size = slice ptr m.offset m.size :=
  slice_congr fun i hlow hhigh => hseen.others i fun n hn hother => by
    have hne : m ≠ n := fun h => htype (h ▸ hother)
    exact (hapart.forall hm hn hne).not_mem hlow hhigh

/-- **One place** is translated, and what the lookup gives back is what is seen. -/
theorem place_seen (hdistinct : records.Distinct) (tables : ReverseTranslation.Tables records)
    (hapart : markings.Pairwise Marking.Apart)
    (hknown : ∀ m ∈ markings, KnownValue records pipelines m.type (slice ptr m.offset m.size))
    (hrecoverable : Recoverable records size markings ptr) (hseen : Seen records markings ptr mem)
    (hm : m ∈ markings) :
    ∃ bytes, (markedTables tables pipelines).translate m.type (slice ptr m.offset m.size) =
        some bytes ∧
      capturedBytes records pipelines m.type bytes = some (slice mem m.offset m.size) := by
  have hvalue := hknown m hm
  have hnonzero := hrecoverable.nonzero m hm
  cases htype : m.type with
  | bufferAddress =>
      have hsize : m.size = 8 := by rw [Marking.size, htype]
      have hsame := slice_of_seen hapart hseen hm (by rw [htype]; decide)
      rw [htype] at hvalue hnonzero
      obtain ⟨b, hb, hlive, hcaptured, hhas⟩ := hvalue.resolve_left (hnonzero (by decide))
      obtain ⟨bytes, htranslate, hback⟩ := buffer_place pipelines hdistinct tables
        (by rw [slice_length, hsize]) hb hlive hcaptured hhas
      rw [if_pos (hrecoverable.bound m hm htype b hb hlive hcaptured hhas)] at hback
      exact ⟨bytes, htranslate, by rw [hback, hsame]⟩
  | accelerationStructureAddress =>
      rw [htype] at hnonzero
      obtain ⟨t, ht, hlive, hcapture, first, hfirst, hne, hslice⟩ := hseen.structures m hm htype
      obtain ⟨bytes, first', htranslate, hfirst', hback⟩ := structure_place pipelines
        hdistinct tables ht hlive hcapture (hnonzero (by decide))
      cases hfirst.symm.trans hfirst'
      rw [if_neg hne] at hback
      exact ⟨bytes, htranslate, by rw [hback, hslice]⟩
  | shaderGroupHandle =>
      have hsame := slice_of_seen hapart hseen hm (by rw [htype]; decide)
      rw [htype] at hvalue
      obtain ⟨bytes, htranslate, hback⟩ := handle_recovered hvalue
      exact ⟨bytes, htranslate, by rw [hsame]; exact hback⟩

/-- A place whose value is translated and found again. -/
def Returned (tables : ReverseTranslation.Tables records) (pipelines : List Pipeline)
    (type : MarkingType) (value back : List UInt8) : Prop :=
  ∃ bytes, (markedTables tables pipelines).translate type value = some bytes ∧
    capturedBytes records pipelines type bytes = some back

theorem Returned.nonzero {tables : ReverseTranslation.Tables records} {type : MarkingType}
    {value back : List UInt8} (h : Returned tables pipelines type value back)
    (htype : type ≠ .shaderGroupHandle) : decode value ≠ 0 := by
  intro hzero
  obtain ⟨bytes, htranslate, -⟩ := h
  rw [translate_zero pipelines tables hzero htype] at htranslate
  cases htranslate

theorem Returned.buffer {tables : ReverseTranslation.Tables records} {value back : List UInt8}
    (h : Returned tables pipelines .bufferAddress value back) (hdistinct : records.Distinct)
    (hlength : value.length = 8) {b : Tracked} (hb : b ∈ records.buffers) (hlive : b.live = true)
    (hcaptured : b.captureDeviceAddress ≠ 0) (hhas : b.HasCaptured (decode value)) :
    b.state = .bound ∧ back = value := by
  obtain ⟨bytes, htranslate, hback⟩ := h
  obtain ⟨bytes', htranslate', hback'⟩ :=
    buffer_place pipelines hdistinct tables hlength hb hlive hcaptured hhas
  cases htranslate.symm.trans htranslate'
  rw [hback'] at hback
  split_ifs at hback with hbound
  exact ⟨hbound, (Option.some.inj hback).symm⟩

theorem Returned.accelerationStructure {tables : ReverseTranslation.Tables records}
    {value back : List UInt8}
    (h : Returned tables pipelines .accelerationStructureAddress value back)
    (hdistinct : records.Distinct) {t : Tracked} (ht : t ∈ records.accelerationStructures)
    (hlive : t.live = true) (hcapture : t.captureDeviceAddress = decode value) :
    ∃ first, records.accelerationStructures.find? (·.deviceAddress = t.deviceAddress) =
      some first ∧ first.captureDeviceAddress ≠ 0 ∧ back = encode 8 first.captureDeviceAddress := by
  have hnonzero : decode value ≠ 0 := h.nonzero (by decide)
  obtain ⟨bytes, htranslate, hback⟩ := h
  obtain ⟨bytes', first, htranslate', hfirst, hback'⟩ :=
    structure_place pipelines hdistinct tables ht hlive hcapture hnonzero
  cases htranslate.symm.trans htranslate'
  rw [hback'] at hback
  split_ifs at hback with hzero
  exact ⟨first, hfirst, hzero, (Option.some.inj hback).symm⟩

theorem Returned.handle {tables : ReverseTranslation.Tables records} {value back : List UInt8}
    (h : Returned tables pipelines .shaderGroupHandle value back)
    (hvalue : Unambiguous pipelines value) : back = value := by
  obtain ⟨bytes, htranslate, hback⟩ := h
  obtain ⟨bytes', htranslate', hback'⟩ := handle_recovered hvalue
  cases htranslate.symm.trans htranslate'
  exact Option.some.inj (hback.symm.trans hback')

/-- Values that are translated, and what the lookups give back for them. -/
theorem recoverable_of_returned (hdistinct : records.Distinct)
    (tables : ReverseTranslation.Tables records)
    (hknown : ∀ m ∈ markings, KnownValue records pipelines m.type (slice ptr m.offset m.size))
    (hreturned : ∀ m ∈ markings, Returned tables pipelines m.type (slice ptr m.offset m.size)
      (slice mem m.offset m.size))
    (hkeep : ∀ i, (∀ m ∈ markings, ¬ (m.offset ≤ i ∧ i < m.offset + m.size)) → mem i = ptr i)
    (hadler : adler32 (slice mem 0 size) = adler32 (slice ptr 0 size)) :
    Recoverable records size markings ptr := by
  have hnonzero : ∀ m ∈ markings, m.type ≠ .shaderGroupHandle →
      decode (slice ptr m.offset m.size) ≠ 0 :=
    fun m hm htype => (hreturned m hm).nonzero htype
  have hbuffer : ∀ m ∈ markings, m.type = .bufferAddress → ∀ b ∈ records.buffers,
      b.live = true → b.captureDeviceAddress ≠ 0 →
        b.HasCaptured (decode (slice ptr m.offset m.size)) →
          b.state = .bound ∧ slice mem m.offset m.size = slice ptr m.offset m.size := by
    intro m hm htype b hb hlive hcaptured hhas
    have hsize : m.size = 8 := by rw [Marking.size, htype]
    have hplace := hreturned m hm
    rw [htype] at hplace
    exact hplace.buffer hdistinct (by rw [slice_length, hsize]) hb hlive hcaptured hhas
  refine ⟨hnonzero, ?_, mem, ⟨?_, ?_⟩, hadler⟩
  · intro m hm htype b hb hlive hcaptured hhas
    exact (hbuffer m hm htype b hb hlive hcaptured hhas).1
  · intro m hm htype
    have hplace := hreturned m hm
    have hvalue := hknown m hm
    have hne := hnonzero m hm (by rw [htype]; decide)
    rw [htype] at hvalue hplace
    obtain ⟨-, t, ht, hlive, hcapture⟩ := hvalue.resolve_left hne
    exact ⟨t, ht, hlive, hcapture, hplace.accelerationStructure hdistinct ht hlive hcapture⟩
  · intro i hout
    by_cases hin : ∃ m ∈ markings, m.offset ≤ i ∧ i < m.offset + m.size
    · -- the byte is in the place of a buffer address or of a handle
      obtain ⟨m, hm, hin⟩ := hin
      have hvalue := hknown m hm
      have hsame : slice mem m.offset m.size = slice ptr m.offset m.size := by
        cases htype : m.type with
        | bufferAddress =>
            rw [htype] at hvalue
            obtain ⟨b, hb, hlive, hcaptured, hhas⟩ :=
              hvalue.resolve_left (hnonzero m hm (by rw [htype]; decide))
            exact (hbuffer m hm htype b hb hlive hcaptured hhas).2
        | accelerationStructureAddress => exact absurd hin (hout m hm htype)
        | shaderGroupHandle =>
            have hplace := hreturned m hm
            rw [htype] at hvalue hplace
            exact hplace.handle hvalue
      have hplace : content (backward records pipelines) mem m =
          content (backward records pipelines) ptr m := hsame
      exact eq_of_content_eq hplace hin
    · exact hkeep i fun m hm h => hin ⟨m, hm, h⟩

/-- The translation is carried out, and the checksum of what it leaves is that of the captured
memory, for each order and repetition of the markings. -/
def Undone (sorting : Sorting fun a b => markedChecksumSpanLess a b = true)
    (tables : ReverseTranslation.Tables records) (pipelines : List Pipeline) (ptr : Memory)
    (size : Nat) (markings : List Marking) : Prop :=
  ∃ after, translateMarkedOffsets (markedTables tables pipelines) size ptr markings = some after ∧
    ∀ others : List Marking, (∀ m, m ∈ others ↔ m ∈ markings) →
      checksumMarkedBufferRange sorting records pipelines after size others =
        some (adler32 (slice ptr 0 size))

theorem rewrite_forward (tables : Tables) (hinside : m.offset + m.size ≤ size)
    (bytes : List UInt8) :
    (forward tables size).rewrite m bytes = tables.translate m.type bytes := if_pos hinside

theorem recoverable_of_undone (sorting : Sorting fun a b => markedChecksumSpanLess a b = true)
    (hdistinct : records.Distinct) (tables : ReverseTranslation.Tables records)
    (hinside : ∀ m ∈ markings, m.offset + m.size ≤ size) (hapart : markings.Pairwise Marking.Apart)
    (hknown : ∀ m ∈ markings, KnownValue records pipelines m.type (slice ptr m.offset m.size))
    (hundone : Undone sorting tables pipelines ptr size markings) :
    Recoverable records size markings ptr := by
  obtain ⟨after, hafter, hchecksum⟩ := hundone
  rw [translateMarkedOffsets_eq] at hafter
  obtain ⟨hcontent, hkeep⟩ := (exec_apart_iff (apart_of_markings rfl rfl hapart)).mp hafter
  have htranslate : ∀ m ∈ markings, (markedTables tables pipelines).translate m.type
      (slice ptr m.offset m.size) = some (slice after m.offset m.size) := by
    intro m hm
    rw [← rewrite_forward _ (hinside m hm)]
    exact hcontent m hm
  have hsum := hchecksum markings fun _ => Iff.rfl
  rw [checksum_eq sorting hinside hapart fun _ => Iff.rfl] at hsum
  obtain ⟨mem, hmem, hadler⟩ := Option.map_eq_some_iff.mp hsum
  obtain ⟨hback, hgaps⟩ := (exec_apart_iff (apart_of_markings rfl rfl hapart)).mp hmem
  refine recoverable_of_returned hdistinct tables hknown ?_ ?_ hadler
  · intro m hm
    exact ⟨_, htranslate m hm, hback m hm⟩
  · intro i hout
    exact (hgaps i hout).trans (hkeep i hout)

theorem undone_of_recoverable (sorting : Sorting fun a b => markedChecksumSpanLess a b = true)
    (hdistinct : records.Distinct) (tables : ReverseTranslation.Tables records)
    (hinside : ∀ m ∈ markings, m.offset + m.size ≤ size) (hapart : markings.Pairwise Marking.Apart)
    (hknown : ∀ m ∈ markings, KnownValue records pipelines m.type (slice ptr m.offset m.size))
    (hrecoverable : Recoverable records size markings ptr) :
    Undone sorting tables pipelines ptr size markings := by
  have hfront : markings.Pairwise (InPlace.Apart (forward (markedTables tables pipelines) size)) :=
    apart_of_markings rfl rfl hapart
  obtain ⟨mem, hseen, hadler⟩ := hrecoverable.seen
  have hplaces : ∀ m ∈ markings, ∃ bytes, (forward (markedTables tables pipelines) size).rewrite m
      (slice ptr m.offset m.size) = some bytes ∧
        capturedBytes records pipelines m.type bytes = some (slice mem m.offset m.size) := by
    intro m hm
    rw [rewrite_forward _ (hinside m hm)]
    exact place_seen hdistinct tables hapart hknown hrecoverable hseen hm
  obtain ⟨after, hafter⟩ : ∃ after, exec (InPlace.step
      (forward (markedTables tables pipelines) size)) ptr markings = some after := by
    refine exec_apart_exists hfront fun m hm => ?_
    obtain ⟨bytes, htranslate, -⟩ := hplaces m hm
    exact ⟨bytes, htranslate⟩
  obtain ⟨hcontent, hkeep⟩ := (exec_apart_iff hfront).mp hafter
  have hmem : exec (InPlace.step (backward records pipelines)) after markings = some mem := by
    rw [exec_apart_iff (apart_of_markings rfl rfl hapart)]
    refine ⟨fun m hm => ?_, fun i hout => ?_⟩
    · obtain ⟨bytes, htranslate, hcaptured⟩ := hplaces m hm
      cases (hcontent m hm).symm.trans htranslate
      exact hcaptured
    · rw [hkeep i hout]
      exact hseen.others i fun m hm _ => hout m hm
  refine ⟨after, (translateMarkedOffsets_eq _ _ _ _).trans hafter, fun others hothers => ?_⟩
  rw [checksum_eq sorting hinside hapart hothers, hmem, Option.map_some, hadler]

/-- **The checksum undoes the translation** exactly if the condition is met. -/
theorem checksum_undoes_iff (sorting : Sorting fun a b => markedChecksumSpanLess a b = true)
    (hdistinct : records.Distinct) (tables : ReverseTranslation.Tables records)
    (hinside : ∀ m ∈ markings, m.offset + m.size ≤ size) (hapart : markings.Pairwise Marking.Apart)
    (hknown : ∀ m ∈ markings, KnownValue records pipelines m.type (slice ptr m.offset m.size)) :
    Undone sorting tables pipelines ptr size markings ↔ Recoverable records size markings ptr := by
  constructor
  · intro hundone
    exact recoverable_of_undone sorting hdistinct tables hinside hapart hknown hundone
  · intro hrecoverable
    exact undone_of_recoverable sorting hdistinct tables hinside hapart hknown hrecoverable

end

/-! ### Examples -/

section

open ReverseTranslation (addingTables addressAtFront captured_mixedRecords decode_addressAtFront
  mixedRecords mixedRecords_distinct not_shadowed_mixedRecords reusedAddress
  reusedAddress_distinct slice_addressAtFront structureAt twoAddresses)

/-- An insertion sort of the spans. -/
def sortSpans : Sorting fun a b : MarkedChecksumSpan => markedChecksumSpanLess a b = true :=
  (Sorting.byKey fun s : MarkedChecksumSpan => toLex (s.offset, s.index)).weaken fun a b h => by
    unfold markedChecksumSpanLess at h
    rw [Prod.Lex.toLex_lt_toLex]
    split_ifs at h with hoffset
    · exact .inl (of_decide_eq_true h)
    · exact .inr ⟨not_not.mp hoffset, of_decide_eq_true h⟩

/-- The address of an acceleration structure at the beginning. -/
def frontMarking : Marking := ⟨0, .accelerationStructureAddress⟩

theorem decode_frontMarking :
    decode (slice (addressAtFront 0x6000) frontMarking.offset frontMarking.size) = 0x6000 :=
  decode_addressAtFront (show 0x6000 < 2 ^ 64 by decide)

theorem inside_frontMarking : ∀ m ∈ [frontMarking], m.offset + m.size ≤ 8 :=
  List.forall_mem_singleton.mpr (by decide)

theorem known_frontMarking {records : Records} {pipelines : List Pipeline}
    (hcaptured : records.Captured .accelerationStructure 0x6000) :
    ∀ m ∈ [frontMarking], KnownValue records pipelines m.type
      (slice (addressAtFront 0x6000) m.offset m.size) := by
  rw [List.forall_mem_singleton]
  exact .inr (decode_frontMarking.symm ▸ hcaptured)

/-- A pipeline with two shader groups, whose handles are other ones in the replay. -/
def otherHandles : Pipeline where
  groupHandleSize := 32
  groupHandles := equalBytes 2 ++ equalBytes 1
  groupCount := 2
  captureReplay := false
  groupHandleSizeReplay := 32
  groupHandlesReplay := equalBytes 8 ++ equalBytes 9

theorem unambiguous_otherHandles : Unambiguous [otherHandles] (equalBytes 1) := by
  have hmatches : otherHandles.matches (equalBytes 1) = [1] := by decide
  have hback : backMatches otherHandles (replayHandle otherHandles 1 (equalBytes 1)) = [1] := by
    decide
  refine ⟨[], otherHandles, [], 1, rfl, ?_, by simp, .inr ⟨rfl, by decide⟩, ?_, by simp⟩
  · rw [hmatches]
    exact fun other => List.mem_singleton
  · rw [hback]
    exact fun other => List.mem_singleton.mp

/-- Two addresses, and a handle behind them. -/
def mixedMemory : Memory := store (twoAddresses 0x6000 0x1010) 32 (equalBytes 1)

def mixedMarkings : List Marking :=
  [⟨32, .shaderGroupHandle⟩, ⟨8, .accelerationStructureAddress⟩, ⟨20, .bufferAddress⟩]

theorem slice_mixedMemory : slice mixedMemory 32 32 = equalBytes 1 ∧
    decode (slice mixedMemory 8 8) = 0x6000 ∧ decode (slice mixedMemory 20 8) = 0x1010 := by
  decide +kernel

/-- A handle, an address of an acceleration structure and one in a buffer. -/
theorem checksum_undoes_mixedRecords :
    Undone sortSpans (addingTables mixedRecords) [otherHandles] mixedMemory 64 mixedMarkings := by
  obtain ⟨hhandle, hstructure, hbuffer⟩ := slice_mixedMemory
  have hknown : ∀ m ∈ mixedMarkings, KnownValue mixedRecords [otherHandles] m.type
      (slice mixedMemory m.offset m.size) := by
    simp only [mixedMarkings, List.forall_mem_cons]
    refine ⟨?_, .inr ?_, .inr ?_, List.forall_mem_nil _⟩
    · exact hhandle.symm ▸ unambiguous_otherHandles
    · exact hstructure.symm ▸ captured_mixedRecords.1
    · exact hbuffer.symm ▸ captured_mixedRecords.2
  have hnonzero : ∀ m ∈ mixedMarkings, m.type ≠ .shaderGroupHandle →
      decode (slice mixedMemory m.offset m.size) ≠ 0 := by decide +kernel
  have hinside : ∀ m ∈ mixedMarkings, m.offset + m.size ≤ 64 := by decide
  have hapart : mixedMarkings.Pairwise Marking.Apart := by decide
  refine (checksum_undoes_iff sortSpans mixedRecords_distinct _ hinside hapart hknown).mpr
    ⟨hnonzero, ?_, mixedMemory, ?_, rfl⟩
  · intro m _ _ b hb _ _ _
    rw [List.mem_singleton.mp hb]
  · refine seen_self hknown hnonzero fun m hm htype => ?_
    have hoffset : ∀ m ∈ mixedMarkings, m.type = .accelerationStructureAddress → m.offset = 8 := by
      decide
    have hsize : m.size = 8 := by rw [Marking.size, htype]
    rw [hoffset m hm htype, hsize, hstructure]
    exact not_shadowed_mixedRecords

/-- **The destroyed acceleration structure is checked** in place of the live one. -/
theorem destroyed_structure_checked :
    reusedAddress.Distinct ∧ (∀ m ∈ [frontMarking], m.offset + m.size ≤ 8) ∧
      [frontMarking].Pairwise Marking.Apart ∧
      (∀ m ∈ [frontMarking], KnownValue reusedAddress [] m.type
        (slice (addressAtFront 0x6000) m.offset m.size)) ∧
      ¬ Undone sortSpans (addingTables reusedAddress) [] (addressAtFront 0x6000) 8
        [frontMarking] := by
  have hlive : structureAt .created 0x9000 0x6000 ∈ reusedAddress.accelerationStructures :=
    List.mem_cons_of_mem _ (List.mem_singleton_self _)
  have hknown : ∀ m ∈ [frontMarking], KnownValue reusedAddress [] m.type
      (slice (addressAtFront 0x6000) m.offset m.size) :=
    known_frontMarking ⟨by decide, _, hlive, rfl, rfl⟩
  refine ⟨reusedAddress_distinct, inside_frontMarking, List.pairwise_singleton _ _, hknown,
    fun hundone => ?_⟩
  obtain ⟨mem, hseen, hadler⟩ := (recoverable_of_undone sortSpans reusedAddress_distinct _
    inside_frontMarking (List.pairwise_singleton _ _) hknown hundone).seen
  obtain ⟨t, ht, halive, -, first, hfirst, -, hslice⟩ :=
    hseen.structures frontMarking (List.mem_singleton_self _) rfl
  have hsame : t = structureAt .created 0x9000 0x6000 := by
    rcases List.mem_cons.mp ht with rfl | ht
    · cases halive
    · exact List.mem_singleton.mp ht
  subst hsame
  have hdestroyed : structureAt .destroyed 0x9000 0x5000 = first := Option.some.inj hfirst
  subst hdestroyed
  replace hslice : slice mem 0 8 = encode 8 0x5000 := hslice
  rw [hslice, slice_addressAtFront] at hadler
  exact absurd hadler (by decide)

end

end MarkedChecksum
end Lavatube
