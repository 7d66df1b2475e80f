import Lavatube.Lib.KeyRuns
import Lavatube.UpdateRewrite
import Mathlib.Data.List.Forall2

/-!
# Synthetic descriptor updates

`lava-tool` queues the descriptors that it finds in descriptor buffers, and writes them into the
output trace before the next submit: one update packet for each buffer, with the descriptors as
markings and as a patch.  The patch is encoded by hand here, not by `write_patch`.

* `writeDescriptorBufferUpdatePacket` — the packet of one buffer.
* `flushSyntheticDescriptorBufferUpdates` — all of them.
* `Emits` — what a packet should carry.
* `write_spec` — the bytes of a packet, unless its size is refused.
* `readPatchLoop_spans` — what the patch does.
* `flush_emits` — the packets carry what was queued.
-/

namespace Lavatube
namespace SyntheticUpdates

open ByteMemory LittleEndian WordStream Packets UpdatePackets UpdateRewrite KeyRuns Transition
open Overwrite (overwrite_middle)
open FileWriter (Op laterPosition poke_isSome writeBlock writeValueLater)
open Patch (readPatch readPatchLoop readPatchLoop_span readPatchLoop_terminator span)

/-! ### The tool -/

/-- `pending_descriptor_buffer_update`. -/
structure PendingUpdate where
  bufferIndex : UInt32
  offset : UInt64
  type : UInt32
  bytes : List UInt8
deriving DecidableEq, Repr

/-- The order of the queue before it is written. -/
def PendingUpdate.Before (a b : PendingUpdate) : Prop :=
  if a.bufferIndex ≠ b.bufferIndex then a.bufferIndex < b.bufferIndex else a.offset < b.offset

/-- A packet with a size word in it, `sizeptr`, that is filled in when what follows it has been
written. -/
def writeSizedPacket (p : PacketWriter) (type : PacketType) (front rest : List (List UInt8)) :
    Option PacketWriter :=
  (step p (.beginPacket type)).bind fun p =>
    (exec step p (front.map .write)).bind fun p =>
      let sizeptr := laterPosition p.writer
      (step p (.writeLater (encode 8 0))).bind fun p =>
        let packetPayloadStart := p.writer.uncompressedBytes
        (exec step p (rest.map .write)).bind fun p =>
          let size := p.writer.uncompressedBytes - packetPayloadStart
          (step p (.store sizeptr (encode 8 size))).bind fun p => step p .endPacket

section

variable (readers : ExtensionReaders) (descriptorMarking : UInt32)
variable (byBuffer : Sorting PendingUpdate.Before)
variable (byOffset : Sorting fun a b : PendingUpdate => a.offset < b.offset)
variable (resolve : UInt32 → Option (Handle × Handle))

/-- The marking of an update; its subtype is a union that was cleared before. -/
def PendingUpdate.entry (update : PendingUpdate) : Entry :=
  ⟨update.offset, descriptorMarking, UInt64.ofNat update.type.toNat⟩

/-- The markings of a packet.  The number is cast to 32 bits, and it is all that is read of the
arrays. -/
def markingsOf (updates : List PendingUpdate) : MarkedOffsetsARM :=
  .ofEntries ((updates.map (PendingUpdate.entry descriptorMarking)).take (updates.length % 2 ^ 32))
    ((List.length_take_le _ _).trans_lt (Nat.mod_lt _ (by norm_num)))

/-- The loop over the sorted updates; `none` is an abort because of an overlap. -/
def spanPieces : UInt64 → List PendingUpdate → Option (List (List UInt8))
  | _, [] => some []
  | cursor, update :: updates =>
      if update.offset < cursor then none
      else
        (spanPieces (update.offset + UInt64.ofNat update.bytes.length) updates).map fun pieces =>
          encode 4 (update.offset - cursor).toNat :: encode 4 update.bytes.length ::
            writeArray update.bytes :: pieces

/-- `write_descriptor_buffer_update_packet`.  `resolve` finds the device and the buffer of the
writer, and `none` is an abort. -/
def writeDescriptorBufferUpdatePacket (p : PacketWriter) (bufferIndex : UInt32)
    (updates : List PendingUpdate) : Option PacketWriter :=
  if updates = [] then some p
  else
    (resolve bufferIndex).bind fun (device, buffer) =>
      (spanPieces 0 (byOffset.sort updates)).bind fun spans =>
        writeSizedPacket p .bufferUpdate2 (device.bytes ++ buffer.bytes)
          (encode 2 1 :: (writeMarkedOffsetsExtension readers.markedOffsets
            (markingsOf descriptorMarking updates) ++ spans ++ [encode 4 0, encode 4 0]))

/-- The loop of `flush_synthetic_descriptor_buffer_updates`, and the packet behind it. -/
def flushLoop (p : PacketWriter) :
    UInt32 → List PendingUpdate → List PendingUpdate → Option PacketWriter
  | current, group, [] =>
      writeDescriptorBufferUpdatePacket readers descriptorMarking byOffset resolve p current group
  | current, group, update :: updates =>
      if current ≠ update.bufferIndex then
        (writeDescriptorBufferUpdatePacket readers descriptorMarking byOffset resolve p current
          group).bind fun p => flushLoop p update.bufferIndex [update] updates
      else
        flushLoop p current (group ++ [update]) updates

/-- `flush_synthetic_descriptor_buffer_updates`: the writer and the pending updates afterwards. -/
def flushSyntheticDescriptorBufferUpdates (p : PacketWriter) (pending : List PendingUpdate) :
    Option (PacketWriter × List PendingUpdate) :=
  if pending = [] then some (p, pending)
  else
    -- no update has been seen yet: `CONTAINER_INVALID_INDEX`
    (flushLoop readers descriptorMarking byOffset resolve p 0xffffffff []
      (byBuffer.sort pending)).map fun p => (p, [])

end

/-! ### Calls that go through -/

section

variable {chunkSize : Nat} {draft : Draft} {p : PacketWriter} {frame : Frame}
variable {pieces : List (List UInt8)} {bytes : List UInt8}

theorem step_write (hopen : p.packetOpen = true) (hsize : bytes.length < 2 ^ 32) :
    ∃ q, step p (.write bytes) = some q ∧ q.pointers = p.pointers := by
  have hrun : (Op.block bytes).run p.writer = some (writeBlock p.writer bytes) := if_pos hsize
  refine ⟨{ p with writer := (writeBlock p.writer bytes).1, ops := p.ops ++ [.block bytes] },
    ?_, rfl⟩
  simp only [step, hopen, if_true, perform, hrun]

theorem step_writeLater (hopen : p.packetOpen = true) (hsize : bytes.length < 2 ^ 32) :
    ∃ q, step p (.writeLater bytes) = some q ∧
      q.pointers = (laterPosition p.writer, bytes.length) :: p.pointers := by
  have hrun : (Op.later bytes).run p.writer = some (writeValueLater p.writer bytes) := if_pos hsize
  refine ⟨{ p with
    writer := (writeValueLater p.writer bytes).1
    ops := p.ops ++ [.later bytes]
    pointers := (laterPosition p.writer, bytes.length) :: p.pointers }, ?_, rfl⟩
  simp only [step, hopen, if_true, perform, hrun]

theorem step_store (hwrites : Writes chunkSize draft p) (hopen : p.packetOpen = true)
    {position : Nat} (hmem : (position, bytes.length) ∈ p.pointers) :
    ∃ q, step p (.store position bytes) = some q := by
  obtain ⟨hpins, -⟩ := (hwrites.pinned hopen).2.2 _ hmem
  obtain ⟨writer, hpoke⟩ := poke_isSome hpins
  refine ⟨{ p with writer := writer, ops := p.ops ++ [.poke position bytes] }, ?_⟩
  simp only [step, hopen, hmem, and_self, if_true, perform, Op.run, hpoke]

/-- Pieces are added to the payload. -/
theorem exec_write (hwrites : Writes chunkSize draft p) (hframe : draft.current = some frame)
    (hpieces : ∀ piece ∈ pieces, piece.length < 2 ^ 32) :
    ∃ q, exec step p (pieces.map .write) = some q ∧ q.pointers = p.pointers ∧
      Writes chunkSize { draft with
        current := some { frame with payload := frame.payload ++ pieces.flatten } } q := by
  induction pieces generalizing p draft frame with
  | nil =>
      refine ⟨p, rfl, rfl, ?_⟩
      rw [List.flatten_nil, List.append_nil]
      cases draft
      cases hframe
      exact hwrites
  | cons piece pieces ih =>
      obtain ⟨hpiece, hpieces⟩ := List.forall_mem_cons.mp hpieces
      have hopen : p.packetOpen = true := by rw [hwrites.packetOpen, hframe]; rfl
      obtain ⟨next, hnext, hkept⟩ := step_write hopen hpiece
      have hdraft := step_refines hwrites hnext
      simp only [Draft.apply, hframe, Option.map_some] at hdraft
      obtain ⟨q, hexec, hpointers, hq⟩ := ih hdraft rfl hpieces
      refine ⟨q, ?_, hpointers.trans hkept, ?_⟩
      · rw [List.map_cons]
        exact exec_cons_eq_some_iff.mpr ⟨next, hnext, hexec⟩
      · simpa using hq

/-- Where the open packet ends. -/
theorem uncompressedBytes_open (hwrites : Writes chunkSize draft p)
    (hframe : draft.current = some frame) :
    p.writer.uncompressedBytes =
      (framesBytes draft.finished).length + 5 + frame.payload.length := by
  rw [hwrites.uncompressedBytes, Draft.bytes, hframe]
  simp only [List.length_append, Frame.bytesWith_length, Frame.size]
  omega

/-- **A packet with a size word** is written, unless its own size is refused at the end. -/
theorem writeSizedPacket_spec (hwrites : Writes chunkSize draft p)
    (hopen : ∀ frame, draft.current = some frame → frame.size < 2 ^ 32) (type : PacketType)
    {front rest : List (List UInt8)} (hfront : ∀ piece ∈ front, piece.length < 2 ^ 32)
    (hrest : ∀ piece ∈ rest, piece.length < 2 ^ 32) :
    let output : Frame :=
      ⟨type, front.flatten ++ (encode 8 rest.flatten.length ++ rest.flatten)⟩
    if output.size < 2 ^ 32 then
      ∃ q, writeSizedPacket p type front rest = some q ∧
        Writes chunkSize ⟨draft.close.finished ++ [output], none⟩ q
    else writeSizedPacket p type front rest = none := by
  intro output
  have hword : (encode 8 0).length < 2 ^ 32 := by simp
  -- the calls one after another
  obtain ⟨begun, hbegun, hbegins⟩ := hwrites.begins type hopen
  obtain ⟨fronted, hfronted, -, hfronts⟩ := exec_write hbegins rfl hfront
  obtain ⟨sized, hsized, hpointer⟩ := step_writeLater hfronts.packetOpen hword
  have hsizes := step_refines hfronts hsized
  simp only [Draft.apply, Option.map_some] at hsizes
  obtain ⟨filled, hfilled, hkept, hfills⟩ := exec_write hsizes rfl hrest
  have hposition := uncompressedBytes_open hfronts rfl
  have hstart := uncompressedBytes_open hsizes rfl
  have hend := uncompressedBytes_open hfills rfl
  have hcount : filled.writer.uncompressedBytes - sized.writer.uncompressedBytes =
      rest.flatten.length := by
    rw [hend, hstart]
    simp only [List.length_append]
    omega
  have hmem : (laterPosition fronted.writer, (encode 8 rest.flatten.length).length) ∈
      filled.pointers := by
    rw [hkept, hpointer, encode_length, encode_length]
    exact List.mem_cons_self ..
  obtain ⟨stored, hstored⟩ := step_store hfills hfills.packetOpen hmem
  have hstores := step_refines hfills hstored
  -- the size is stored behind the front
  have hdraft : Draft.apply ⟨draft.close.finished, some ⟨type, [] ++ front.flatten ++ encode 8 0 ++
        rest.flatten⟩⟩ (.store (laterPosition fronted.writer) (encode 8 rest.flatten.length)) =
      ⟨draft.close.finished, some output⟩ := by
    have hfrom : laterPosition fronted.writer -
        Draft.payloadStart ⟨draft.close.finished, some ⟨type, [] ++ front.flatten ++ encode 8 0 ++
          rest.flatten⟩⟩ = front.flatten.length := by
      show fronted.writer.uncompressedBytes - _ = _
      rw [hposition]
      simp only [Draft.payloadStart, Draft.apply, List.nil_append]
      omega
    simp only [Draft.apply, Option.map_some, hfrom]
    rw [List.nil_append, List.append_assoc, overwrite_middle (by simp)]
  have hstores : Writes chunkSize ⟨draft.close.finished, some output⟩ stored := hdraft ▸ hstores
  have hcalls : writeSizedPacket p type front rest = step stored .endPacket := by
    have hbegun : step p (.beginPacket type) = some begun := hbegun
    simp only [writeSizedPacket, hbegun, hfronted, hsized, hfilled, hcount, hstored,
      Option.bind_some]
  rw [hcalls]
  split_ifs with hsize
  · obtain ⟨q, hq, hends⟩ := hstores.ends fun frame hframe => by cases hframe; exact hsize
    exact ⟨q, hq, hends⟩
  · cases hfinish : step stored .endPacket with
    | none => rfl
    | some q => exact absurd (hstores.size_lt_of_ends hfinish output rfl) hsize

end

/-! ### The bytes of a packet -/

/-- The end of an update. -/
def PendingUpdate.stop (update : PendingUpdate) : Nat :=
  update.offset.toNat + update.bytes.length

/-- Each update ends before the next one begins. -/
def Ordered (updates : List PendingUpdate) : Prop :=
  updates.Pairwise fun a b => a.stop ≤ b.offset.toNat

/-- The spans of ordered updates. -/
def spansBytes : Nat → List PendingUpdate → List UInt8
  | _, [] => []
  | cursor, update :: updates =>
      span (update.offset.toNat - cursor) update.bytes.length (writeArray update.bytes) ++
        spansBytes update.stop updates

theorem length_writeArray_lt (bytes : List UInt8) : (writeArray bytes).length < 2 ^ 32 := by
  rw [writeArray, List.length_take_of_le (Nat.mod_le _ _)]
  exact Nat.mod_lt _ (by norm_num)

/-- Ordered updates are written, each behind the one before it. -/
theorem spanPieces_eq {updates : List PendingUpdate} {cursor : UInt64} {position : Nat}
    (hordered : Ordered updates) (hsmall : ∀ update ∈ updates, update.offset.toNat < 2 ^ 32)
    (hcursor : updates ≠ [] → cursor.toNat = position)
    (hbehind : ∀ update ∈ updates, position ≤ update.offset.toNat) :
    ∃ pieces, spanPieces cursor updates = some pieces ∧
      pieces.flatten = spansBytes position updates ∧
      ∀ piece ∈ pieces, piece.length < 2 ^ 32 := by
  induction updates generalizing cursor position with
  | nil => exact ⟨[], rfl, rfl, by simp⟩
  | cons update updates ih =>
      obtain ⟨hfirst, hordered⟩ := List.pairwise_cons.mp hordered
      obtain ⟨hoffset, hsmall⟩ := List.forall_mem_cons.mp hsmall
      have hposition := hcursor (by simp)
      have hle : cursor ≤ update.offset := by
        rw [UInt64.le_iff_toNat_le, hposition]
        exact hbehind update (List.mem_cons_self ..)
      -- the cursor is what the source computes only if something follows
      have hnext : updates ≠ [] →
          (update.offset + UInt64.ofNat update.bytes.length).toNat = update.stop := by
        intro hne
        obtain ⟨next, hmem⟩ := List.exists_mem_of_ne_nil updates hne
        have hstop := hfirst next hmem
        have hlt := hsmall next hmem
        unfold PendingUpdate.stop at hstop ⊢
        rw [UInt64.toNat_add, UInt64.toNat_ofNat_of_lt' (by show _ < 2 ^ 64; omega)]
        exact Nat.mod_eq_of_lt (by omega)
      obtain ⟨pieces, hpieces, hflat, hshort⟩ := ih hordered hsmall hnext hfirst
      refine ⟨encode 4 (update.offset - cursor).toNat :: encode 4 update.bytes.length ::
        writeArray update.bytes :: pieces, ?_, ?_, ?_⟩
      · rw [spanPieces, if_neg (UInt64.not_lt.mpr hle), hpieces, Option.map_some]
      · rw [spansBytes, ← hflat, UInt64.toNat_sub_of_le _ _ hle, hposition]
        simp [span]
      · simp only [List.forall_mem_cons, encode_length]
        exact ⟨by norm_num, by norm_num, length_writeArray_lt _, hshort⟩

section

variable (readers : ExtensionReaders) (descriptorMarking : UInt32)
variable (byOffset : Sorting fun a b : PendingUpdate => a.offset < b.offset)

/-- The patch of a packet. -/
def patchBytes (updates : List PendingUpdate) : List UInt8 :=
  spansBytes 0 (byOffset.sort updates) ++ (encode 4 0 ++ (encode 4 0 ++ []))

/-- What is behind the size word. -/
def tailBytes (updates : List PendingUpdate) : List UInt8 :=
  encode 2 1 ++ ((writeMarkedOffsetsExtension readers.markedOffsets
    (markingsOf descriptorMarking updates)).flatten ++ patchBytes byOffset updates)

/-- The packet of a buffer. -/
def descriptorPacket (device buffer : Handle) (updates : List PendingUpdate) : Frame :=
  ⟨.bufferUpdate2, device.bytes.flatten ++ (buffer.bytes.flatten ++
    (encode 8 (tailBytes readers descriptorMarking byOffset updates).length ++
      tailBytes readers descriptorMarking byOffset updates))⟩

end

section

variable {readers : ExtensionReaders} {descriptorMarking : UInt32}
variable {byBuffer : Sorting PendingUpdate.Before}
variable {byOffset : Sorting fun a b : PendingUpdate => a.offset < b.offset}
variable {resolve : UInt32 → Option (Handle × Handle)} {device buffer : Handle}
variable {chunkSize : Nat} {draft : Draft} {p : PacketWriter} {bufferIndex : UInt32}
variable {updates : List PendingUpdate}

/-- The pieces behind the size word. -/
theorem tailPieces_short (markings : MarkedOffsetsARM) (sType : UInt32)
    {spans : List (List UInt8)} (hspans : ∀ piece ∈ spans, piece.length < 2 ^ 32) :
    ∀ piece ∈ encode 2 1 :: (writeMarkedOffsetsExtension sType markings ++ spans ++
      [encode 4 0, encode 4 0]), piece.length < 2 ^ 32 := by
  have hoptional : ∀ (count : UInt32) (array : Option (List UInt8)),
      ∀ piece ∈ writeOptional count array, piece.length < 2 ^ 32 := by
    intro count array piece hpiece
    unfold writeOptional at hpiece
    split at hpiece
    · split_ifs at hpiece
      · simp only [List.mem_cons, List.not_mem_nil, or_false] at hpiece
        rcases hpiece with rfl | rfl
        · simp
        · exact length_writeArray_lt _
      · simp only [List.mem_singleton] at hpiece
        subst hpiece
        simp
    · simp only [List.mem_singleton] at hpiece
      subst hpiece
      simp
  intro piece hpiece
  simp only [writeMarkedOffsetsExtension, List.mem_cons, List.mem_append, List.not_mem_nil,
    or_false] at hpiece
  rcases hpiece with rfl | ((((((rfl | rfl | rfl | rfl) | h) | h) | h) | h) | (rfl | rfl))
  all_goals first
    | exact hoptional _ _ piece h
    | exact hspans piece h
    | (rw [encode_length]; norm_num)

/-- **The packet of a buffer** is written, unless its size does not fit the size word. -/
theorem write_spec (hwrites : Writes chunkSize draft p)
    (hopen : ∀ frame, draft.current = some frame → frame.size < 2 ^ 32) (hne : updates ≠ [])
    (hresolve : resolve bufferIndex = some (device, buffer))
    (hordered : Ordered (byOffset.sort updates))
    (hsmall : ∀ update ∈ updates, update.offset.toNat < 2 ^ 32) :
    if (descriptorPacket readers descriptorMarking byOffset device buffer updates).size < 2 ^ 32
    then ∃ q, writeDescriptorBufferUpdatePacket readers descriptorMarking byOffset resolve p
        bufferIndex updates = some q ∧
      Writes chunkSize ⟨draft.close.finished ++
        [descriptorPacket readers descriptorMarking byOffset device buffer updates], none⟩ q
    else writeDescriptorBufferUpdatePacket readers descriptorMarking byOffset resolve p
      bufferIndex updates = none := by
  have hspans : ∃ pieces, spanPieces 0 (byOffset.sort updates) = some pieces ∧
      pieces.flatten = spansBytes 0 (byOffset.sort updates) ∧
      ∀ piece ∈ pieces, piece.length < 2 ^ 32 :=
    spanPieces_eq hordered (fun update hmem => hsmall update (byOffset.mem_sort.mp hmem))
      (fun _ => rfl) fun _ _ => Nat.zero_le _
  obtain ⟨spans, hspans, hflat, hshort⟩ := hspans
  have hhandles : ∀ piece ∈ device.bytes ++ buffer.bytes, piece.length < 2 ^ 32 := by
    simp [Handle.bytes]
  have hsized := writeSizedPacket_spec hwrites hopen .bufferUpdate2 hhandles
    (tailPieces_short (markingsOf descriptorMarking updates) readers.markedOffsets hshort)
  have htail : (encode 2 1 :: (writeMarkedOffsetsExtension readers.markedOffsets
      (markingsOf descriptorMarking updates) ++ spans ++ [encode 4 0, encode 4 0])).flatten =
        tailBytes readers descriptorMarking byOffset updates := by
    simp [tailBytes, patchBytes, hflat]
  rw [htail, List.flatten_append, List.append_assoc] at hsized
  simp only [writeDescriptorBufferUpdatePacket, if_neg hne, hresolve, hspans, Option.bind_some]
  exact hsized

/-! ### What the patch does -/

/-- The memory behind a list of updates. -/
def storeAll (buf : Memory) (updates : List PendingUpdate) : Memory :=
  updates.foldl (fun buf update => store buf update.offset.toNat update.bytes) buf

theorem storeAll_of_not_mem {buf : Memory} {i : Nat}
    (hout : ∀ update ∈ updates, ¬ (update.offset.toNat ≤ i ∧ i < update.stop)) :
    storeAll buf updates i = buf i := by
  induction updates generalizing buf with
  | nil => rfl
  | cons update updates ih =>
      obtain ⟨hfirst, hrest⟩ := List.forall_mem_cons.mp hout
      rw [storeAll, List.foldl_cons]
      exact (ih hrest).trans (store_of_not_mem hfirst)

theorem storeAll_of_mem {buf : Memory} {update : PendingUpdate} (hordered : Ordered updates)
    (hmem : update ∈ updates) {k : Nat} (hk : k < update.bytes.length) :
    storeAll buf updates (update.offset.toNat + k) = update.bytes.getD k 0 := by
  induction updates generalizing buf with
  | nil => cases hmem
  | cons first updates ih =>
      obtain ⟨hfirst, hordered⟩ := List.pairwise_cons.mp hordered
      rw [storeAll, List.foldl_cons]
      rcases List.mem_cons.mp hmem with rfl | hlater
      · -- the updates behind it are further up
        have hout : ∀ next ∈ updates,
            ¬ (next.offset.toNat ≤ update.offset.toNat + k ∧
              update.offset.toNat + k < next.stop) := by
          intro next hnext hin
          have hstop := hfirst next hnext
          unfold PendingUpdate.stop at hstop
          omega
        refine (storeAll_of_not_mem hout).trans ?_
        unfold store
        rw [if_pos ⟨Nat.le_add_right .., by omega⟩, Nat.add_sub_cancel_left]
      · exact ih hordered hlater

/-- **Reading the spans** stores the updates. -/
theorem readPatchLoop_spans {maxsize rounds position changed : Nat} {buf : Memory}
    (hordered : Ordered updates) (hbytes : ∀ update ∈ updates, update.bytes ≠ [])
    (hsmall : ∀ update ∈ updates, update.offset.toNat < 2 ^ 32)
    (hlength : ∀ update ∈ updates, update.bytes.length < 2 ^ 32)
    (hbehind : ∀ update ∈ updates, position ≤ update.offset.toNat)
    (hmax : maxsize = 0 ∨ position ≤ maxsize ∧ ∀ update ∈ updates, update.stop ≤ maxsize)
    (hrounds : updates.length < rounds) :
    readPatchLoop maxsize rounds buf position changed
        (spansBytes position updates ++ (encode 4 0 ++ (encode 4 0 ++ []))) =
      some (storeAll buf updates,
        (changed + (updates.map fun update => update.bytes.length).sum) % 2 ^ 32, []) := by
  induction updates generalizing buf position changed rounds with
  | nil =>
      obtain ⟨rounds, rfl⟩ := Nat.exists_eq_add_one_of_ne_zero (Nat.ne_of_gt hrounds)
      rw [spansBytes, List.nil_append, readPatchLoop_terminator (hmax.imp id And.left)]
      rfl
  | cons update updates ih =>
      obtain ⟨hfirst, hordered⟩ := List.pairwise_cons.mp hordered
      obtain ⟨hnonempty, hbytes⟩ := List.forall_mem_cons.mp hbytes
      obtain ⟨hoffset, hsmall⟩ := List.forall_mem_cons.mp hsmall
      obtain ⟨hshort, hlength⟩ := List.forall_mem_cons.mp hlength
      have hle := hbehind update (List.mem_cons_self ..)
      have hpos := List.length_pos_iff.mpr hnonempty
      obtain ⟨rounds, rfl⟩ : ∃ fewer, rounds = fewer + 1 :=
        ⟨rounds - 1, by rw [List.length_cons] at hrounds; omega⟩
      have hfit : maxsize = 0 ∨ update.stop ≤ maxsize ∧ ∀ next ∈ updates, next.stop ≤ maxsize :=
        hmax.imp id fun h => List.forall_mem_cons.mp h.2
      have hstop : position + (update.offset.toNat - position) = update.offset.toNat := by omega
      rw [spansBytes, writeArray_eq hshort, List.append_assoc,
        readPatchLoop_span rfl (by omega) hshort (by omega)
          (hfit.imp id fun h => by rw [hstop]; exact h.1), hstop]
      refine (ih hordered hbytes hsmall hlength hfirst hfit ?_).trans ?_
      · rw [List.length_cons] at hrounds
        omega
      · rw [List.map_cons, List.sum_cons, Nat.add_assoc]
        rfl

/-! ### The markings -/

theorem count_markingsOf (descriptorMarking : UInt32) (hfew : updates.length < 2 ^ 32) :
    (markingsOf descriptorMarking updates).count.toNat = updates.length := by
  unfold markingsOf MarkedOffsetsARM.ofEntries
  rw [UInt32.toNat_ofNat_of_lt', List.length_take, List.length_map, Nat.mod_eq_of_lt hfew,
    Nat.min_self]
  exact (List.length_take_le _ _).trans_lt (Nat.mod_lt _ (by norm_num))

theorem entries_markingsOf (hfew : updates.length < 2 ^ 32) :
    (markingsOf descriptorMarking updates).entries =
      some (updates.map (PendingUpdate.entry descriptorMarking)) := by
  rw [markingsOf, entries_ofEntries, Nat.mod_eq_of_lt hfew, List.take_of_length_le (by simp)]

theorem arraysFit_markingsOf (hfew : updates.length < 2 ^ 29) :
    (markingsOf descriptorMarking updates).ArraysFit := by
  have hcount : (markingsOf descriptorMarking updates).count.toNat = updates.length :=
    count_markingsOf _ (by omega)
  constructor
  all_goals
    intro _
    omega

theorem clone_markingsOf (hne : updates ≠ []) (hfew : updates.length < 2 ^ 32) :
    cloneMarkedOffsets (markingsOf descriptorMarking updates) =
      markingsOf descriptorMarking updates := by
  refine if_neg fun hzero => hne ?_
  have hcount := congrArg UInt32.toNat hzero
  rw [count_markingsOf _ hfew] at hcount
  exact List.length_eq_zero_iff.mp hcount

/-! ### The size -/

/-- The size of the packet of these updates. -/
def packetBytes (updates : List PendingUpdate) : Nat :=
  60 + 28 * updates.length + (updates.map fun update => update.bytes.length).sum

theorem length_spansBytes {position : Nat}
    (hlength : ∀ update ∈ updates, update.bytes.length < 2 ^ 32) :
    (spansBytes position updates).length =
      8 * updates.length + (updates.map fun update => update.bytes.length).sum := by
  induction updates generalizing position with
  | nil => rfl
  | cons update updates ih =>
      obtain ⟨hshort, hlength⟩ := List.forall_mem_cons.mp hlength
      rw [spansBytes, List.length_append, ih hlength, writeArray_eq hshort]
      simp only [span, List.length_append, encode_length, List.length_cons, List.map_cons,
        List.sum_cons]
      omega

theorem length_patchBytes (hlength : ∀ update ∈ updates, update.bytes.length < 2 ^ 32) :
    (patchBytes byOffset updates).length =
      8 * updates.length + (updates.map fun update => update.bytes.length).sum + 8 := by
  have hperm := byOffset.perm updates
  rw [patchBytes, List.length_append,
    length_spansBytes fun update hmem => hlength update (byOffset.mem_sort.mp hmem),
    hperm.length_eq, (hperm.map fun update => update.bytes.length).sum_eq]
  simp

theorem size_descriptorPacket :
    (descriptorPacket readers descriptorMarking byOffset device buffer updates).size =
      33 + (writeMarkedOffsetsExtension readers.markedOffsets
        (markingsOf descriptorMarking updates)).flatten.length +
        (patchBytes byOffset updates).length := by
  simp only [descriptorPacket, tailBytes, Frame.size, List.length_append, encode_length,
    length_handleBytes]
  omega

theorem sum_ge_length (hbytes : ∀ update ∈ updates, update.bytes ≠ []) :
    updates.length ≤ (updates.map fun update => update.bytes.length).sum := by
  have hle := List.length_le_sum_of_one_le (updates.map fun update => update.bytes.length)
  rw [List.length_map] at hle
  refine hle fun length hmem => ?_
  obtain ⟨update, hupdate, rfl⟩ := List.mem_map.mp hmem
  exact List.length_pos_iff.mpr (hbytes update hupdate)

/-- **The size of the packet** fits the size word exactly if the sum of its parts does. -/
theorem size_descriptorPacket_lt_iff (hbytes : ∀ update ∈ updates, update.bytes ≠ [])
    (hlength : ∀ update ∈ updates, update.bytes.length < 2 ^ 32) :
    (descriptorPacket readers descriptorMarking byOffset device buffer updates).size < 2 ^ 32 ↔
      packetBytes updates < 2 ^ 32 := by
  have hsum := sum_ge_length hbytes
  rw [size_descriptorPacket, length_patchBytes hlength, packetBytes]
  by_cases hfew : updates.length < 2 ^ 29
  · have hcount : (markingsOf descriptorMarking updates).count.toNat = updates.length :=
      count_markingsOf _ (by omega)
    have hsize := (extensionSize_eq_iff readers.markedOffsets
      (markingsOf descriptorMarking updates)).mpr (arraysFit_markingsOf hfew)
    have hthere : markedOffsetsExtensionSize (markingsOf descriptorMarking updates) =
        19 + 20 * updates.length := by
      by_cases hpos : 0 < (markingsOf descriptorMarking updates).count
      · simp only [markedOffsetsExtensionSize, hpos, hcount, and_true]
        simp only [markingsOf, MarkedOffsetsARM.ofEntries, Option.isSome_some, if_true]
        omega
      · have hzero : updates.length = 0 := by
          rw [UInt32.lt_iff_toNat_lt, hcount] at hpos
          exact Nat.eq_zero_of_not_pos hpos
        simp only [markedOffsetsExtensionSize, hpos, and_false, if_false]
        omega
    rw [← hsize, hthere]
    omega
  · omega

/-! ### What a packet carries -/

/-- Reading a patch stores the updates, changes nothing else, and leaves nothing of the patch. -/
def PatchStores (updates : List PendingUpdate) (patch : List UInt8) : Prop :=
  ∀ buf maxsize, (maxsize = 0 ∨ ∀ update ∈ updates, update.stop ≤ maxsize) →
    ∃ result changed, readPatch buf maxsize patch = some (result, changed, []) ∧
      (∀ update ∈ updates, ∀ k < update.bytes.length,
        result (update.offset.toNat + k) = update.bytes.getD k 0) ∧
      ∀ i, (∀ update ∈ updates, ¬ (update.offset.toNat ≤ i ∧ i < update.stop)) →
        result i = buf i

/-- Each offset is marked once, as a descriptor of its type. -/
def MarksOnce (descriptorMarking : UInt32) (updates : List PendingUpdate)
    (markings : MarkedOffsetsARM) : Prop :=
  ∃ entries, markings.entries = some entries ∧
    entries.Perm (updates.map (PendingUpdate.entry descriptorMarking)) ∧
    (entries.map Entry.offset).Nodup

/-- The packet patches a buffer with the updates and marks them. -/
def Emits (readers : ExtensionReaders) (descriptorMarking : UInt32) (device buffer : Handle)
    (updates : List PendingUpdate) (output : Frame) : Prop :=
  output.type = .bufferUpdate2 ∧
    ∃ written markings, readUpdatePacket readers output = some written ∧
      written.deviceIndex = device.index ∧ written.objectIndex = buffer.index ∧
      SizeRight output written ∧ written.sptr = .markedOffsets markings .null ∧
      MarksOnce descriptorMarking updates markings ∧
      PatchStores updates (output.payload.drop written.payloadStart)

/-- Updates that do not overlap. -/
def Apart (a b : PendingUpdate) : Prop :=
  a.stop ≤ b.offset.toNat ∨ b.stop ≤ a.offset.toNat

instance (a b : PendingUpdate) : Decidable (Apart a b) := inferInstanceAs (Decidable (_ ∨ _))

/-- Sorting updates that do not overlap orders them. -/
theorem ordered_sort (hbytes : ∀ update ∈ updates, update.bytes ≠ [])
    (hapart : updates.Pairwise Apart) : Ordered (byOffset.sort updates) := by
  have hsymm : ∀ a b : PendingUpdate, Apart a b → Apart b a := fun a b h => h.symm
  have hsorted := (byOffset.perm updates).symm.pairwise hapart (fun {a b} => hsymm a b)
  refine (hsorted.and (byOffset.sorted updates)).imp_of_mem fun {a b} ha hb h => ?_
  obtain ⟨hapart, hnot⟩ := h
  have hle := UInt64.le_iff_toNat_le.mp (UInt64.not_lt.mp hnot)
  have hpos := List.length_pos_iff.mpr (hbytes b (byOffset.mem_sort.mp hb))
  rcases hapart with h | h
  · exact h
  · unfold PendingUpdate.stop at h
    omega

/-- The patch stores the updates. -/
theorem patchStores_patchBytes (hbytes : ∀ update ∈ updates, update.bytes ≠ [])
    (hsmall : ∀ update ∈ updates, update.offset.toNat < 2 ^ 32)
    (hlength : ∀ update ∈ updates, update.bytes.length < 2 ^ 32)
    (hapart : updates.Pairwise Apart) : PatchStores updates (patchBytes byOffset updates) := by
  intro buf maxsize hmax
  have hsort : ∀ {P : PendingUpdate → Prop}, (∀ update ∈ updates, P update) →
      ∀ update ∈ byOffset.sort updates, P update :=
    fun hall update hmem => hall update (byOffset.mem_sort.mp hmem)
  have hordered : Ordered (byOffset.sort updates) := ordered_sort hbytes hapart
  have hrounds : (byOffset.sort updates).length < (patchBytes byOffset updates).length + 1 := by
    rw [length_patchBytes hlength, (byOffset.perm updates).length_eq]
    omega
  refine ⟨storeAll buf (byOffset.sort updates), _,
    readPatchLoop_spans hordered (hsort hbytes) (hsort hsmall) (hsort hlength)
      (fun _ _ => Nat.zero_le _) (hmax.imp id fun h => ⟨Nat.zero_le _, hsort h⟩) hrounds,
    fun update hmem k hk => storeAll_of_mem hordered (byOffset.mem_sort.mpr hmem) hk,
    fun i hout => storeAll_of_not_mem (hsort hout)⟩

theorem nodup_offsets (hbytes : ∀ update ∈ updates, update.bytes ≠ [])
    (hapart : updates.Pairwise Apart) :
    ((updates.map (PendingUpdate.entry descriptorMarking)).map Entry.offset).Nodup := by
  rw [List.map_map, List.Nodup, List.pairwise_map]
  refine hapart.imp_of_mem fun {a b} ha hb hapart heq => ?_
  have hoffset : a.offset.toNat = b.offset.toNat := congrArg UInt64.toNat heq
  have hfirst := List.length_pos_iff.mpr (hbytes a ha)
  have hsecond := List.length_pos_iff.mpr (hbytes b hb)
  unfold Apart PendingUpdate.stop at hapart
  omega

theorem length_lt_of_packetBytes (hsize : packetBytes updates < 2 ^ 32) :
    ∀ update ∈ updates, update.bytes.length < 2 ^ 32 := by
  intro update hmem
  have hle := List.le_sum_of_mem (List.mem_map_of_mem (f := fun update : PendingUpdate =>
    update.bytes.length) hmem)
  unfold packetBytes at hsize
  omega

/-- **The packet of a buffer** carries its updates. -/
theorem emits_descriptorPacket (hne : updates ≠ [])
    (hbytes : ∀ update ∈ updates, update.bytes ≠ [])
    (hsmall : ∀ update ∈ updates, update.offset.toNat < 2 ^ 32)
    (hapart : updates.Pairwise Apart) (hsize : packetBytes updates < 2 ^ 32) :
    Emits readers descriptorMarking device buffer updates
      (descriptorPacket readers descriptorMarking byOffset device buffer updates) := by
  have hlength := length_lt_of_packetBytes hsize
  have hfew : updates.length < 2 ^ 29 := by
    unfold packetBytes at hsize
    omega
  have hfits : (markingsOf descriptorMarking updates).ArraysFit := arraysFit_markingsOf hfew
  have hpatch : (patchBytes byOffset updates).length < 2 ^ 32 := by
    rw [length_patchBytes hlength]
    unfold packetBytes at hsize
    omega
  have htail : encode 8 (tailBytes readers descriptorMarking byOffset updates).length ++
      tailBytes readers descriptorMarking byOffset updates =
        rewrittenTail readers.markedOffsets (markingsOf descriptorMarking updates)
          (patchBytes byOffset updates) := by
    rw [rewrittenTail, (extensionSize_eq_iff readers.markedOffsets _).mpr hfits, tailBytes]
    simp only [List.length_append, encode_length]
    congr 2
    omega
  obtain ⟨written, hwritten, hdevice, hbuffer, hright, hsptr, hrest⟩ :=
    readUpdatePacket_rewrittenTail readers .bufferUpdate2 device buffer rfl hpatch hfits
  rw [clone_markingsOf hne (by omega)] at hsptr
  rw [descriptorPacket, htail]
  refine ⟨rfl, written, _, hwritten, hdevice, hbuffer, hright, hsptr,
    ⟨_, entries_markingsOf (by omega), List.Perm.refl _, nodup_offsets hbytes hapart⟩, ?_⟩
  rw [hrest]
  exact patchStores_patchBytes hbytes hsmall hlength hapart

/-! ### The queue -/

/-- What the queue holds: bytes at 32-bit offsets, which do not overlap in one buffer. -/
structure Pending (pending : List PendingUpdate) : Prop where
  bytes : ∀ update ∈ pending, update.bytes ≠ []
  small : ∀ update ∈ pending, update.offset.toNat < 2 ^ 32
  apart : pending.Pairwise fun a b => a.bufferIndex = b.bufferIndex → Apart a b

/-- The updates of a buffer. -/
def ofBuffer (pending : List PendingUpdate) (bufferIndex : UInt32) : List PendingUpdate :=
  pending.filter fun update => update.bufferIndex = bufferIndex

variable {pending : List PendingUpdate}

theorem mem_ofBuffer {update : PendingUpdate} :
    update ∈ ofBuffer pending bufferIndex ↔
      update ∈ pending ∧ update.bufferIndex = bufferIndex := by
  rw [ofBuffer, List.mem_filter, decide_eq_true_eq]

theorem Pending.apart_ofBuffer (hpending : Pending pending) :
    (ofBuffer pending bufferIndex).Pairwise Apart := by
  refine (hpending.apart.sublist List.filter_sublist).imp_of_mem fun {a b} ha hb h => ?_
  exact h ((mem_ofBuffer.mp ha).2.trans (mem_ofBuffer.mp hb).2.symm)

/-- One group of the loop. -/
def writeRun (readers : ExtensionReaders) (descriptorMarking : UInt32)
    (byOffset : Sorting fun a b : PendingUpdate => a.offset < b.offset)
    (resolve : UInt32 → Option (Handle × Handle)) (p : PacketWriter)
    (run : UInt32 × List PendingUpdate) : Option PacketWriter :=
  writeDescriptorBufferUpdatePacket readers descriptorMarking byOffset resolve p run.1 run.2

theorem flushLoop_eq_exec {current : UInt32} {group rest : List PendingUpdate} :
    flushLoop readers descriptorMarking byOffset resolve p current group rest =
      exec (writeRun readers descriptorMarking byOffset resolve) p
        (runs PendingUpdate.bufferIndex current group rest) := by
  induction rest generalizing p current group with
  | nil =>
      rw [flushLoop, runs, exec, writeRun]
      cases writeDescriptorBufferUpdatePacket readers descriptorMarking byOffset resolve p current
        group <;> rfl
  | cons update rest ih =>
      rw [flushLoop, runs]
      split_ifs with hchange
      · rw [exec, writeRun]
        cases writeDescriptorBufferUpdatePacket readers descriptorMarking byOffset resolve p current
          group with
        | none => rfl
        | some next => exact ih
      · exact ih

/-- What a group becomes. -/
def RunPacket (readers : ExtensionReaders) (descriptorMarking : UInt32)
    (byOffset : Sorting fun a b : PendingUpdate => a.offset < b.offset)
    (resolve : UInt32 → Option (Handle × Handle)) (run : UInt32 × List PendingUpdate)
    (output : Frame) : Prop :=
  ∃ device buffer, resolve run.1 = some (device, buffer) ∧
    output = descriptorPacket readers descriptorMarking byOffset device buffer run.2

/-- Groups that can be written. -/
def RunReady (byOffset : Sorting fun a b : PendingUpdate => a.offset < b.offset)
    (resolve : UInt32 → Option (Handle × Handle)) (run : UInt32 × List PendingUpdate) : Prop :=
  run.2 ≠ [] ∧ (resolve run.1).isSome ∧ Ordered (byOffset.sort run.2) ∧
    ∀ update ∈ run.2, update.offset.toNat < 2 ^ 32

theorem exists_outputs {groups : List (UInt32 × List PendingUpdate)}
    (hready : ∀ run ∈ groups, RunReady byOffset resolve run) :
    ∃ outputs, List.Forall₂ (RunPacket readers descriptorMarking byOffset resolve) groups
      outputs := by
  induction groups with
  | nil => exact ⟨[], .nil⟩
  | cons run groups ih =>
      obtain ⟨⟨-, hresolve, -⟩, hready⟩ := List.forall_mem_cons.mp hready
      obtain ⟨⟨device, buffer⟩, hresolve⟩ := Option.isSome_iff_exists.mp hresolve
      obtain ⟨outputs, houtputs⟩ := ih hready
      exact ⟨_, .cons ⟨device, buffer, hresolve, rfl⟩ houtputs⟩

/-- **All groups** are written in order, unless the size of one packet is refused. -/
theorem exec_runs {groups : List (UInt32 × List PendingUpdate)} {outputs : List Frame}
    (houtputs : List.Forall₂ (RunPacket readers descriptorMarking byOffset resolve) groups outputs)
    (hready : ∀ run ∈ groups, RunReady byOffset resolve run) (hwrites : Writes chunkSize draft p)
    (hopen : ∀ frame, draft.current = some frame → frame.size < 2 ^ 32) :
    if ∀ output ∈ outputs, output.size < 2 ^ 32 then
      ∃ q next, exec (writeRun readers descriptorMarking byOffset resolve) p groups = some q ∧
        Writes chunkSize next q ∧ next.close.finished = draft.close.finished ++ outputs
    else exec (writeRun readers descriptorMarking byOffset resolve) p groups = none := by
  induction houtputs generalizing draft p with
  | nil =>
      rw [if_pos (by simp)]
      exact ⟨p, draft, rfl, hwrites, (List.append_nil _).symm⟩
  | @cons run output groups outputs hpacket houtputs ih =>
      obtain ⟨⟨hne, -, hordered, hsmall⟩, hready⟩ := List.forall_mem_cons.mp hready
      obtain ⟨device, buffer, hresolve, rfl⟩ := hpacket
      have hwrite : if (descriptorPacket readers descriptorMarking byOffset device buffer
            run.2).size < 2 ^ 32
          then ∃ q, writeRun readers descriptorMarking byOffset resolve p run = some q ∧
            Writes chunkSize ⟨draft.close.finished ++ [descriptorPacket readers descriptorMarking
              byOffset device buffer run.2], none⟩ q
          else writeRun readers descriptorMarking byOffset resolve p run = none :=
        write_spec hwrites hopen hne hresolve hordered hsmall
      split_ifs at hwrite with hsize
      · obtain ⟨next, hnext, hdraft⟩ := hwrite
        have hrest := ih hready hdraft fun frame hframe => by cases hframe
        simp only [List.forall_mem_cons, hsize, true_and, exec, hnext]
        split_ifs at hrest ⊢ with hall
        · obtain ⟨q, final, hexec, hfinal, hfinished⟩ := hrest
          refine ⟨q, final, hexec, hfinal, hfinished.trans ?_⟩
          simp [Draft.close]
        · exact hrest
      · rw [if_neg fun hall => hsize (hall _ (List.mem_cons_self ..)), exec, hwrite]

/-- What `flush_synthetic_descriptor_buffer_updates` is for: one packet for each buffer with
pending updates, which carries them, and no pending updates afterwards. -/
def Flushes (readers : ExtensionReaders) (descriptorMarking : UInt32)
    (byBuffer : Sorting PendingUpdate.Before)
    (byOffset : Sorting fun a b : PendingUpdate => a.offset < b.offset)
    (resolve : UInt32 → Option (Handle × Handle)) (chunkSize : Nat) (draft : Draft)
    (p : PacketWriter) (pending : List PendingUpdate) : Prop :=
  ∃ q next buffers outputs,
    flushSyntheticDescriptorBufferUpdates readers descriptorMarking byBuffer byOffset resolve p
      pending = some (q, []) ∧
    Writes chunkSize next q ∧ next.close.finished = draft.close.finished ++ outputs ∧
    buffers.Nodup ∧ (∀ b, b ∈ buffers ↔ ∃ update ∈ pending, update.bufferIndex = b) ∧
    List.Forall₂ (fun b output => ∃ device buffer, resolve b = some (device, buffer) ∧
      Emits readers descriptorMarking device buffer (ofBuffer pending b) output) buffers outputs

/-- The groups of the sorted queue. -/
theorem groups_spec (hpending : Pending pending)
    (hresolve : ∀ update ∈ pending, (resolve update.bufferIndex).isSome)
    {update : PendingUpdate} {rest : List PendingUpdate}
    (hsort : byBuffer.sort pending = update :: rest) :
    let groups := runs PendingUpdate.bufferIndex update.bufferIndex [update] rest
    (groups.map Prod.fst).Nodup ∧
      (∀ b, b ∈ groups.map Prod.fst ↔ ∃ update ∈ pending, update.bufferIndex = b) ∧
      ∀ run ∈ groups, run.2.Perm (ofBuffer pending run.1) ∧ RunReady byOffset resolve run := by
  intro groups
  have hperm := byBuffer.perm pending
  have hsorted := byBuffer.sorted pending
  rw [hsort] at hperm hsorted
  have hrank : Function.Injective UInt32.toNat := fun a b => UInt32.toNat_inj.mp
  have hascends : (update :: rest).Pairwise fun a b =>
      a.bufferIndex.toNat ≤ b.bufferIndex.toNat := by
    refine hsorted.imp fun {a b} hnot => ?_
    by_contra hlt
    refine hnot ?_
    unfold PendingUpdate.Before
    have hless : b.bufferIndex < a.bufferIndex := UInt32.lt_iff_toNat_lt.mpr (not_le.mp hlt)
    have hne : b.bufferIndex ≠ a.bufferIndex := fun heq => hlt (by rw [heq])
    rw [if_pos hne]
    exact hless
  obtain ⟨hbelow, hrest⟩ := List.pairwise_cons.mp hascends
  have hkeys : ∀ b, b ∈ groups.map Prod.fst ↔ ∃ update ∈ pending, update.bufferIndex = b := by
    intro b
    rw [mem_keys_runs]
    simp only [← hperm.mem_iff, List.exists_mem_cons_iff, eq_comm]
  refine ⟨(runs_sorted hrank hrest hbelow).imp fun h heq => h.ne (congrArg UInt32.toNat heq),
    hkeys, fun run hrun => ?_⟩
  have hfilter := mem_runs hrank (fun a ha => by rw [List.mem_singleton.mp ha]) hrest hbelow hrun
  have hgroup : run.2.Perm (ofBuffer pending run.1) := by
    rw [hfilter]
    exact hperm.filter _
  obtain ⟨found, hmem, hindex⟩ := (hkeys run.1).mp (List.mem_map_of_mem hrun)
  refine ⟨hgroup, ?_, hindex ▸ hresolve found hmem, ?_, ?_⟩
  · intro hnil
    rw [hnil] at hgroup
    have hthere := mem_ofBuffer.mpr ⟨hmem, hindex⟩
    rw [← hgroup.mem_iff] at hthere
    cases hthere
  · refine ordered_sort (fun update hupdate => ?_) ?_
    · exact hpending.bytes update (mem_ofBuffer.mp (hgroup.mem_iff.mp hupdate)).1
    · exact hgroup.symm.pairwise hpending.apart_ofBuffer fun {a b} h => h.symm
  · exact fun update hupdate =>
      hpending.small update (mem_ofBuffer.mp (hgroup.mem_iff.mp hupdate)).1

/-- The flush is a run over the groups of the sorted queue. -/
theorem flush_eq_exec {update : PendingUpdate} {rest : List PendingUpdate}
    (hsort : byBuffer.sort pending = update :: rest) :
    flushSyntheticDescriptorBufferUpdates readers descriptorMarking byBuffer byOffset resolve p
        pending =
      (exec (writeRun readers descriptorMarking byOffset resolve) p
        (runs PendingUpdate.bufferIndex update.bufferIndex [update] rest)).map
          fun p => (p, []) := by
  have hne : pending ≠ [] := by
    rintro rfl
    have hlength := (byBuffer.perm []).length_eq
    rw [hsort] at hlength
    cases hlength
  have hnothing : writeDescriptorBufferUpdatePacket readers descriptorMarking byOffset resolve p
      0xffffffff [] = some p := if_pos rfl
  rw [flushSyntheticDescriptorBufferUpdates, if_neg hne, hsort, ← flushLoop_eq_exec]
  congr 1
  rw [flushLoop]
  split_ifs with hchange
  · rw [hnothing, Option.bind_some]
  · rw [List.nil_append, not_not.mp hchange]

theorem forall_right_iff {A B : Type*} {R : A → B → Prop} {P : A → Prop} {Q : B → Prop}
    {l : List A} {u : List B} (hrelated : List.Forall₂ R l u)
    (hiff : ∀ a b, R a b → (Q b ↔ P a)) : (∀ b ∈ u, Q b) ↔ ∀ a ∈ l, P a := by
  induction hrelated with
  | nil => simp
  | cons hfirst _ ih => rw [List.forall_mem_cons, List.forall_mem_cons, ih, hiff _ _ hfirst]

/-- Sizes and contents do not depend on the order of the updates. -/
theorem packetBytes_perm {others : List PendingUpdate} (hperm : updates.Perm others) :
    packetBytes updates = packetBytes others := by
  rw [packetBytes, packetBytes, hperm.length_eq,
    (hperm.map fun update => update.bytes.length).sum_eq]

theorem Emits.perm {others : List PendingUpdate} {output : Frame}
    (hemits : Emits readers descriptorMarking device buffer updates output)
    (hperm : updates.Perm others) :
    Emits readers descriptorMarking device buffer others output := by
  obtain ⟨htype, written, markings, hwritten, hdevice, hbuffer, hsize, hsptr,
    ⟨entries, hentries, hsame, hnodup⟩, hstores⟩ := hemits
  refine ⟨htype, written, markings, hwritten, hdevice, hbuffer, hsize, hsptr,
    ⟨entries, hentries, hsame.trans (hperm.map _), hnodup⟩, fun buf maxsize hmax => ?_⟩
  have hmem : ∀ update, update ∈ others ↔ update ∈ updates := fun _ => hperm.mem_iff.symm
  simp only [hmem] at hmax ⊢
  exact hstores buf maxsize hmax

/-- The packet of a buffer, with the updates in some order. -/
def BufferPacket (readers : ExtensionReaders) (descriptorMarking : UInt32)
    (byOffset : Sorting fun a b : PendingUpdate => a.offset < b.offset)
    (resolve : UInt32 → Option (Handle × Handle)) (pending : List PendingUpdate) (b : UInt32)
    (output : Frame) : Prop :=
  ∃ updates, updates ≠ [] ∧ updates.Perm (ofBuffer pending b) ∧
    RunPacket readers descriptorMarking byOffset resolve (b, updates) output

variable (readers descriptorMarking byBuffer byOffset) in
/-- **A flush** writes one packet for each buffer, unless the size of one is refused. -/
theorem flush_spec (hpending : Pending pending)
    (hresolve : ∀ update ∈ pending, (resolve update.bufferIndex).isSome)
    (hwrites : Writes chunkSize draft p)
    (hopen : ∀ frame, draft.current = some frame → frame.size < 2 ^ 32) :
    ∃ buffers outputs, buffers.Nodup ∧
      (∀ b, b ∈ buffers ↔ ∃ update ∈ pending, update.bufferIndex = b) ∧
      List.Forall₂ (BufferPacket readers descriptorMarking byOffset resolve pending) buffers
        outputs ∧
      if ∀ output ∈ outputs, output.size < 2 ^ 32 then
        ∃ q next, flushSyntheticDescriptorBufferUpdates readers descriptorMarking byBuffer byOffset
            resolve p pending = some (q, []) ∧
          Writes chunkSize next q ∧ next.close.finished = draft.close.finished ++ outputs
      else
        flushSyntheticDescriptorBufferUpdates readers descriptorMarking byBuffer byOffset resolve p
          pending = none := by
  cases hsort : byBuffer.sort pending with
  | nil =>
      obtain rfl := byBuffer.sort_eq_nil.mp hsort
      refine ⟨[], [], List.nodup_nil, by simp, .nil, ?_⟩
      rw [if_pos (by simp)]
      exact ⟨p, draft, rfl, hwrites, (List.append_nil _).symm⟩
  | cons update rest =>
      obtain ⟨hnodup, hkeys, hgroups⟩ := groups_spec hpending hresolve hsort
      rw [flush_eq_exec hsort]
      generalize runs PendingUpdate.bufferIndex update.bufferIndex [update] rest = groups
        at hnodup hkeys hgroups ⊢
      have hready : ∀ run ∈ groups, RunReady byOffset resolve run :=
        fun run hrun => (hgroups run hrun).2
      obtain ⟨outputs, houtputs⟩ : ∃ outputs, List.Forall₂
          (RunPacket readers descriptorMarking byOffset resolve) groups outputs :=
        exists_outputs hready
      have hexec := exec_runs houtputs hready hwrites hopen
      refine ⟨groups.map Prod.fst, outputs, hnodup, hkeys, ?_, ?_⟩
      · rw [List.forall₂_map_left_iff]
        refine ((List.forall₂_and_left _ _).mpr ⟨hgroups, houtputs⟩).imp fun run output h => ?_
        exact ⟨run.2, h.1.2.1, h.1.1, h.2⟩
      · split_ifs at hexec ⊢ with hall
        · obtain ⟨q, next, hq, hnext, hfinished⟩ := hexec
          exact ⟨q, next, by rw [hq, Option.map_some], hnext, hfinished⟩
        · rw [hexec, Option.map_none]

/-- The size of a packet fits exactly if that of the updates of its buffer does. -/
theorem size_bufferPacket_lt_iff (hpending : Pending pending)
    (hlength : ∀ update ∈ pending, update.bytes.length < 2 ^ 32) {b : UInt32} {output : Frame}
    (hpacket : BufferPacket readers descriptorMarking byOffset resolve pending b output) :
    output.size < 2 ^ 32 ↔ packetBytes (ofBuffer pending b) < 2 ^ 32 := by
  obtain ⟨updates, -, hperm, device, buffer, -, rfl⟩ := hpacket
  have hpart : ∀ update ∈ updates, update ∈ pending :=
    fun update hmem => (mem_ofBuffer.mp (hperm.mem_iff.mp hmem)).1
  rw [← packetBytes_perm hperm]
  exact size_descriptorPacket_lt_iff (fun update hmem => hpending.bytes update (hpart _ hmem))
    fun update hmem => hlength update (hpart _ hmem)

/-- A packet that is too large for its size word is refused. -/
theorem flush_eq_none (hpending : Pending pending)
    (hresolve : ∀ update ∈ pending, (resolve update.bufferIndex).isSome)
    (hwrites : Writes chunkSize draft p)
    (hopen : ∀ frame, draft.current = some frame → frame.size < 2 ^ 32)
    (hlength : ∀ update ∈ pending, update.bytes.length < 2 ^ 32) {b : UInt32}
    (hlarge : 2 ^ 32 ≤ packetBytes (ofBuffer pending b)) :
    flushSyntheticDescriptorBufferUpdates readers descriptorMarking byBuffer byOffset resolve p
      pending = none := by
  obtain ⟨buffers, outputs, -, hkeys, hpackets, hflush⟩ :=
    flush_spec readers descriptorMarking byBuffer byOffset hpending hresolve hwrites hopen
  have hb : b ∈ buffers := by
    by_contra hnot
    have hnil : ofBuffer pending b = [] := by
      rw [List.eq_nil_iff_forall_not_mem]
      exact fun update hmem => hnot ((hkeys b).mpr ⟨update, mem_ofBuffer.mp hmem⟩)
    rw [hnil] at hlarge
    exact absurd hlarge (by decide)
  have hrefused : ¬ ∀ output ∈ outputs, output.size < 2 ^ 32 := by
    rw [forall_right_iff hpackets fun _ _ h => size_bufferPacket_lt_iff hpending hlength h]
    exact fun hall => absurd (hall b hb) (by omega)
  rwa [if_neg hrefused] at hflush

/-- **Synthetic descriptor updates.**  Where the packet of each buffer fits its size word, the flush
writes one packet for each buffer, which carries what was queued for it.  Otherwise it is aborted at
the end of a packet. -/
theorem flush_emits (hpending : Pending pending)
    (hresolve : ∀ update ∈ pending, (resolve update.bufferIndex).isSome)
    (hwrites : Writes chunkSize draft p)
    (hopen : ∀ frame, draft.current = some frame → frame.size < 2 ^ 32) :
    ((∀ b, packetBytes (ofBuffer pending b) < 2 ^ 32) →
        Flushes readers descriptorMarking byBuffer byOffset resolve chunkSize draft p pending) ∧
      ((∀ update ∈ pending, update.bytes.length < 2 ^ 32) →
        (∃ b, 2 ^ 32 ≤ packetBytes (ofBuffer pending b)) →
        flushSyntheticDescriptorBufferUpdates readers descriptorMarking byBuffer byOffset resolve p
          pending = none) := by
  refine ⟨fun hsmall => ?_, fun hlength ⟨b, hlarge⟩ =>
    flush_eq_none hpending hresolve hwrites hopen hlength hlarge⟩
  have hlength : ∀ update ∈ pending, update.bytes.length < 2 ^ 32 := fun update hmem =>
    length_lt_of_packetBytes (hsmall update.bufferIndex) update (mem_ofBuffer.mpr ⟨hmem, rfl⟩)
  obtain ⟨buffers, outputs, hnodup, hkeys, hpackets, hflush⟩ :=
    flush_spec readers descriptorMarking byBuffer byOffset hpending hresolve hwrites hopen
  have hfit : ∀ output ∈ outputs, output.size < 2 ^ 32 := by
    rw [forall_right_iff hpackets fun _ _ h => size_bufferPacket_lt_iff hpending hlength h]
    exact fun b _ => hsmall b
  rw [if_pos hfit] at hflush
  obtain ⟨q, next, hq, hnext, hfinished⟩ := hflush
  refine ⟨q, next, buffers, outputs, hq, hnext, hfinished, hnodup, hkeys,
    hpackets.imp fun b output hpacket => ?_⟩
  obtain ⟨updates, hne, hperm, device, buffer, hdevice, rfl⟩ := hpacket
  have hpart : ∀ update ∈ updates, update ∈ pending :=
    fun update hmem => (mem_ofBuffer.mp (hperm.mem_iff.mp hmem)).1
  have hsize : packetBytes updates < 2 ^ 32 := by
    rw [packetBytes_perm hperm]
    exact hsmall b
  have hapart : updates.Pairwise Apart :=
    hperm.symm.pairwise hpending.apart_ofBuffer fun {a b} h => h.symm
  have hemits : Emits readers descriptorMarking device buffer updates
      (descriptorPacket readers descriptorMarking byOffset device buffer updates) :=
    emits_descriptorPacket hne (fun update hmem => hpending.bytes update (hpart _ hmem))
      (fun update hmem => hpending.small update (hpart _ hmem)) hapart hsize
  exact ⟨device, buffer, hdevice, hemits.perm hperm⟩

end

/-- One way of sorting the queue. -/
def queueSorting : Sorting PendingUpdate.Before :=
  (Sorting.byKey fun update : PendingUpdate =>
    update.bufferIndex.toNat * 2 ^ 64 + update.offset.toNat).weaken fun a b hbefore => by
      have hoffset := a.offset.toNat_lt
      unfold PendingUpdate.Before at hbefore
      split_ifs at hbefore with hbuffer
      · have hlt := UInt32.lt_iff_toNat_lt.mp hbefore
        omega
      · have hlt := UInt64.lt_iff_toNat_lt.mp hbefore
        rw [not_not.mp hbuffer]
        omega

/-- One way of sorting the updates of a buffer. -/
def offsetSorting : Sorting fun a b : PendingUpdate => a.offset < b.offset :=
  (Sorting.byKey fun update : PendingUpdate => update.offset.toNat).weaken
    fun _ _ => UInt64.lt_iff_toNat_lt.mp

/-- Every buffer belongs to one device. -/
def oneDevice (bufferIndex : UInt32) : Option (Handle × Handle) :=
  some (⟨0, 255, 0⟩, ⟨bufferIndex, 255, 0⟩)

/-- Updates of two buffers, in the wrong order. -/
def threeUpdates : List PendingUpdate :=
  [⟨7, 32, 6, [1, 2]⟩, ⟨3, 8, 6, [5]⟩, ⟨7, 16, 1, [9, 9, 9]⟩]

theorem flush_emits_threeUpdates :
    Flushes markingReaders 5 queueSorting offsetSorting oneDevice 64 {} (PacketWriter.new 64)
      threeUpdates := by
  have hpending : Pending threeUpdates := ⟨by decide, by decide, by decide⟩
  have hwrites : Writes 64 {} (PacketWriter.new 64) :=
    exec_refines (rfl : exec step (PacketWriter.new 64) [] = some _)
  refine (flush_emits hpending (fun _ _ => rfl) hwrites fun frame hframe => by cases hframe).1
    fun b => ?_
  unfold ofBuffer threeUpdates
  simp only [List.filter_cons, List.filter_nil, decide_eq_true_eq]
  split_ifs <;> decide

/-- Bytes that leave no room for the rest of their packet. -/
def largeUpdate : PendingUpdate := ⟨7, 0, 6, List.replicate 4294967288 0⟩

/-- They are not written. -/
theorem largeUpdate_refused :
    Pending [largeUpdate] ∧
      ¬ Flushes markingReaders 5 queueSorting offsetSorting oneDevice 64 {} (PacketWriter.new 64)
        [largeUpdate] := by
  have hlength : largeUpdate.bytes.length = 4294967288 := List.length_replicate
  have hpending : Pending [largeUpdate] := by
    refine ⟨fun update hmem => ?_, fun update hmem => ?_, List.pairwise_singleton ..⟩
    · rw [List.mem_singleton.mp hmem, ← List.length_pos_iff, hlength]
      norm_num
    · rw [List.mem_singleton.mp hmem]
      exact (by decide : (0 : UInt64).toNat < 2 ^ 32)
  have hwrites : Writes 64 {} (PacketWriter.new 64) :=
    exec_refines (rfl : exec step (PacketWriter.new 64) [] = some _)
  refine ⟨hpending, ?_⟩
  rintro ⟨q, next, buffers, outputs, hflush, -⟩
  have hlarge : 2 ^ 32 ≤ packetBytes (ofBuffer [largeUpdate] 7) := by
    have hfilter : ofBuffer [largeUpdate] 7 = [largeUpdate] := rfl
    rw [hfilter, packetBytes, List.map_singleton, List.sum_singleton, hlength]
    norm_num
  rw [flush_eq_none hpending (fun _ _ => rfl) hwrites (fun frame hframe => by cases hframe)
    (fun update hmem => by rw [List.mem_singleton.mp hmem, hlength]; norm_num) hlarge] at hflush
  cases hflush

end SyntheticUpdates
end Lavatube
