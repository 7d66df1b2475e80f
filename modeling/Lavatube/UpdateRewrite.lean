import Lavatube.UpdatePackets

/-!
# Rewriting update packets

In output mode `lava-tool` writes every update packet again, behind handles whose packets have been
renumbered.  If the simulation has found other markings than those that the packet has, the header
is replaced and the rest of the packet is copied behind it.

* `writeOutputUpdatePacket` — the packet is copied.
* `maybeWriteRewrittenUpdatePacket` — the packet gets other markings.
* `Carries` — a packet with the objects and the patch of another one, and certain extensions.
* `update_packets_rewritten` — both write such a packet, and when the sizes are right.
-/

namespace Lavatube
namespace UpdateRewrite

open WordStream LittleEndian Packets UpdatePackets

/-! ### The tool -/

section

variable (readers : ExtensionReaders) (sorting : Sorting Entry.Before)
variable (translate : Nat → UInt32 → Option UInt32) (thread : Nat)

/-- `write_output_handle`; `translate` is `output_packet_mapping::translate`, and `none` is an
abort. -/
def writeOutputHandle (input : List UInt8) : Option (List (List UInt8)) :=
  (readHandle input).bind fun (handle, _) =>
    -- `req_thread` is a number of eight bits with a sign
    if handle.reqThread.toNat < 2 ^ 7 ∧ handle.reqThread.toNat ≠ thread then
      if handle.reqPacket = 0xffffffff then none
      else
        (translate handle.reqThread.toNat (handle.reqPacket + 1)).bind fun outputBoundary =>
          if outputBoundary = 0 then none
          else some { handle with reqPacket := outputBoundary - 1 }.bytes
    else
      some handle.bytes

/-- `write_output_update_packet_prefix`. -/
def writeOutputUpdatePacketPrefix (packet : Frame) (headerStart : Nat) :
    Option (List (List UInt8)) :=
  if headerStart = 9 * 2 then
    (writeOutputHandle translate thread packet.payload).bind fun device =>
      (writeOutputHandle translate thread (packet.payload.drop 9)).map fun object =>
        device ++ object
  else none

/-- `write_output_update_packet`. -/
def writeOutputUpdatePacket (packet : Frame) (update : OutputUpdatePacket) : Option (List Call) :=
  (writeOutputUpdatePacketPrefix translate thread packet update.headerStart).map fun pieces =>
    packetCalls packet.type (pieces ++ [writeArray (packet.payload.drop update.headerStart)])

/-- The markings of a packet; the outer `none` is an abort. -/
def existingMarkings : Extension → Option (Option MarkedOffsetsARM)
  | .null => some none
  | .markedOffsets markings _ => some (some (cloneMarkedOffsets markings))
  | .other _ => none

/-- `normalize_marked_offsets` of a pointer. -/
def normalizeExisting : Option MarkedOffsetsARM → Option (Option MarkedOffsetsARM)
  | none => some none
  | some markings => (normalizeMarkedOffsets sorting markings).map some

/-- The writes of a packet with other markings. -/
def rewrittenPieces (packet : Frame) (update : OutputUpdatePacket) (handles : List (List UInt8))
    (desired : MarkedOffsetsARM) : List (List UInt8) :=
  let payloadBytes := packet.payload.length - update.payloadStart
  let newHeaderBytes := 2 + markedOffsetsExtensionSize desired
  handles ++ [encode 8 (payloadBytes + newHeaderBytes), encode 2 1] ++
    writeMarkedOffsetsExtension readers.markedOffsets desired ++
    [writeArray (packet.payload.drop update.payloadStart)]

/-- `maybe_write_rewritten_update_packet` with the entry that `find_output_rewrite_entry` has found;
the inner `none` is the result `false`. -/
def maybeWriteRewrittenUpdatePacket (packet : Frame) (update : OutputUpdatePacket)
    (entry : Option MarkedOffsetsARM) : Option (Option (List Call)) :=
  match entry with
  | none => some none
  | some markings =>
      if isVersion2 packet.type then
        (existingMarkings update.sptr).bind fun existing =>
          (normalizeMarkedOffsets sorting (cloneMarkedOffsets markings)).bind fun desired =>
            (normalizeExisting sorting existing).bind fun existing =>
              if compareMarkedOffsets existing (some desired) = .none then some none
              else
                (writeOutputUpdatePacketPrefix translate thread packet update.headerStart).map
                  fun handles =>
                    some (packetCalls packet.type (rewrittenPieces readers packet update handles
                      desired))
      else none

end

/-! ### What the packets carry -/

/-- The size word of a packet of the second version counts what is behind it. -/
def SizeRight (packet : Frame) (update : OutputUpdatePacket) : Prop :=
  isVersion2 packet.type = true →
    update.size = packet.payload.length - (update.headerStart + 8)

/-- The packet has the type, the objects and the patch of another one, a right size, and certain
extensions. -/
def Carries (readers : ExtensionReaders) (packet : Frame) (update : OutputUpdatePacket)
    (sptr : Extension) (output : Frame) : Prop :=
  output.type = packet.type ∧
    ∃ written, readUpdatePacket readers output = some written ∧
      written.deviceIndex = update.deviceIndex ∧ written.objectIndex = update.objectIndex ∧
      SizeRight output written ∧ written.sptr = sptr ∧
      output.payload.drop written.payloadStart = packet.payload.drop update.payloadStart

/-- The calls write one packet, whatever the writer has written before. -/
def WritesPacket (calls : List Call) (output : Frame) : Prop :=
  ∀ chunkSize draft p q, Writes chunkSize draft p → Transition.exec step p calls = some q →
    Writes chunkSize ⟨draft.close.finished ++ [output], none⟩ q

theorem writesPacket_packetCalls (type : PacketType) (pieces : List (List UInt8)) :
    WritesPacket (packetCalls type pieces) ⟨type, pieces.flatten⟩ := by
  intro chunkSize draft p q hwrites hexec
  rw [← foldl_packetCalls]
  exact writes_exec hwrites hexec

section

variable {readers : ExtensionReaders} {sorting : Sorting Entry.Before}
variable {translate : Nat → UInt32 → Option UInt32} {thread : Nat}
variable {packet : Frame} {update : OutputUpdatePacket} {calls : List Call}

/-- A handle keeps its index. -/
theorem writeOutputHandle_index {input rest : List UInt8} {handle : Handle}
    {pieces : List (List UInt8)} (hread : readHandle input = some (handle, rest))
    (hwrite : writeOutputHandle translate thread input = some pieces) :
    ∃ output : Handle, output.index = handle.index ∧ pieces = output.bytes := by
  unfold writeOutputHandle at hwrite
  rw [hread, Option.bind_some] at hwrite
  simp only at hwrite
  split_ifs at hwrite
  · obtain ⟨outputBoundary, -, hboundary⟩ := Option.bind_eq_some_iff.mp hwrite
    split_ifs at hboundary
    exact ⟨{ handle with reqPacket := outputBoundary - 1 }, rfl,
      (Option.some.inj hboundary).symm⟩
  · exact ⟨handle, rfl, (Option.some.inj hwrite).symm⟩

/-- The handles of a packet are written with their indices. -/
theorem prefix_handles {handles : List (List UInt8)}
    (hread : readUpdatePacket readers packet = some update)
    (hwrite : writeOutputUpdatePacketPrefix translate thread packet update.headerStart =
      some handles) :
    ∃ device object : Handle, device.index = update.deviceIndex ∧
      object.index = update.objectIndex ∧
      handles.flatten = device.bytes.flatten ++ object.bytes.flatten := by
  obtain ⟨device, object, size, sptr, rest, hlong, hdevice, hobject, hheader, rfl⟩ :=
    readUpdatePacket_eq_some_iff.mp hread
  unfold writeOutputUpdatePacketPrefix at hwrite
  rw [if_pos rfl] at hwrite
  obtain ⟨first, hfirst, hwrite⟩ := Option.bind_eq_some_iff.mp hwrite
  obtain ⟨second, hsecond, rfl⟩ := Option.map_eq_some_iff.mp hwrite
  obtain ⟨device', hdeviceIndex, rfl⟩ := writeOutputHandle_index hdevice hfirst
  obtain ⟨object', hobjectIndex, rfl⟩ := writeOutputHandle_index hobject hsecond
  exact ⟨device', object', hdeviceIndex, hobjectIndex, List.flatten_append⟩

/-- The bytes behind the handles. -/
theorem drop_handles (device object : Handle) (tail : List UInt8) (n : Nat) :
    (device.bytes.flatten ++ (object.bytes.flatten ++ tail)).drop (18 + n) = tail.drop n := by
  rw [show 18 + n = 9 + (9 + n) by omega, ← List.drop_drop, ← List.drop_drop,
    List.drop_left' (length_handleBytes device), List.drop_left' (length_handleBytes object)]

theorem length_handles (device object : Handle) (tail : List UInt8) :
    (device.bytes.flatten ++ (object.bytes.flatten ++ tail)).length = 18 + tail.length := by
  simp only [List.length_append, length_handleBytes]
  omega

/-- What is read of a packet with given handles. -/
theorem readUpdatePacket_handles {type : PacketType} {device object : Handle} {size : Nat}
    {sptr : Extension} {tail rest : List UInt8}
    (hheader : readHeader readers type tail = some (size, sptr, rest)) :
    readUpdatePacket readers
        ⟨type, device.bytes.flatten ++ (object.bytes.flatten ++ tail)⟩ =
      some ⟨device.index, object.index, 18, 18 + tail.length - rest.length, size, sptr⟩ := by
  have hnine : (device.bytes.flatten ++ (object.bytes.flatten ++ tail)).drop 9 =
      object.bytes.flatten ++ tail := List.drop_left' (length_handleBytes device)
  have heighteen : (device.bytes.flatten ++ (object.bytes.flatten ++ tail)).drop 18 = tail :=
    drop_handles device object tail 0
  have hlength := length_handles device object tail
  rw [readUpdatePacket_eq_some_iff]
  refine ⟨device, object, size, sptr, rest, by rw [hlength]; omega, ?_, ?_, ?_, ?_⟩
  · rw [hnine]
    exact readHandle_bytes device
  · rw [hnine, heighteen]
    exact readHandle_bytes object
  · rw [heighteen]
    exact hheader
  · rw [hlength]

/-- A part of a packet is shorter than a length of 32 bits can tell. -/
theorem writeArray_drop (hsmall : packet.size < 2 ^ 32) (n : Nat) :
    writeArray (packet.payload.drop n) = packet.payload.drop n := by
  refine writeArray_eq ?_
  rw [List.length_drop]
  unfold Frame.size at hsmall
  omega

/-- **A copied packet** has its own markings. -/
theorem writeOutputUpdatePacket_carries (hread : readUpdatePacket readers packet = some update)
    (hsmall : packet.size < 2 ^ 32) (hsize : SizeRight packet update)
    (hcalls : writeOutputUpdatePacket translate thread packet update = some calls) :
    ∃ output, WritesPacket calls output ∧ Carries readers packet update update.sptr output := by
  unfold writeOutputUpdatePacket at hcalls
  obtain ⟨handles, hhandles, rfl⟩ := Option.map_eq_some_iff.mp hcalls
  refine ⟨_, writesPacket_packetCalls _ _, rfl, ?_⟩
  obtain ⟨device, object, hdevice, hobject, hflat⟩ := prefix_handles hread hhandles
  obtain ⟨device', object', size, sptr, rest, hlong, -, -, hheader, rfl⟩ :=
    readUpdatePacket_eq_some_iff.mp hread
  have hle := length_rest_of_readHeader hheader
  have hpayload : (handles ++ [writeArray (packet.payload.drop 18)]).flatten =
      device.bytes.flatten ++ (object.bytes.flatten ++ packet.payload.drop 18) := by
    rw [writeArray_drop hsmall]
    simp [hflat]
  rw [hpayload]
  refine ⟨_, readUpdatePacket_handles hheader, hdevice, hobject, fun hversion => ?_, rfl, ?_⟩
  · have hright := hsize hversion
    simp only [length_handles, List.length_drop] at hright ⊢
    omega
  · rw [List.length_drop] at hle
    simp only [List.length_drop]
    rw [show 18 + (packet.payload.length - 18) - rest.length =
      18 + (packet.payload.length - 18 - rest.length) by omega, drop_handles, List.drop_drop,
      show 18 + (packet.payload.length - 18 - rest.length) =
        packet.payload.length - rest.length by omega]

/-- Normalised clones are their own clones: where there are no markings, there are no arrays. -/
theorem clone_normalized {markings desired : MarkedOffsetsARM}
    (hnormalized : normalizeMarkedOffsets sorting (cloneMarkedOffsets markings) = some desired) :
    cloneMarkedOffsets desired = desired := by
  unfold normalizeMarkedOffsets at hnormalized
  split_ifs at hnormalized with hfew
  · cases hnormalized
    by_cases hzero : markings.count = 0
    · simp [cloneMarkedOffsets, hzero]
    · simp [cloneMarkedOffsets, hzero]
  · split at hnormalized
    · cases hnormalized
    · next entries hentries =>
        cases hnormalized
        refine if_neg fun hzero => hfew ?_
        have hlength := MarkedOffsetsARM.length_entries hentries
        have hnil : unique (sorting.sort entries) = [] := by
          have hcount := congrArg UInt32.toNat hzero
          have hle := length_unique_le (sorting.sort entries)
          have hperm := (sorting.perm entries).length_eq
          have hlt := (cloneMarkedOffsets markings).count.toNat_lt
          have hsmall : (unique (sorting.sort entries)).length < UInt32.size := by
            show _ < 2 ^ 32
            omega
          rw [MarkedOffsetsARM.ofEntries, UInt32.toNat_ofNat_of_lt' hsmall] at hcount
          exact List.length_eq_zero_iff.mp hcount
        have hsorted : sorting.sort entries = [] := by
          cases hsort : sorting.sort entries with
          | nil => rfl
          | cons entry rest =>
              rw [hsort] at hnil
              cases hnil
        rw [sorting.sort_eq_nil] at hsorted
        rw [hsorted] at hlength
        rw [UInt32.le_iff_toNat_le, ← hlength]
        exact Nat.zero_le _

/-- The header and the patch of a packet with other markings. -/
def rewrittenTail (sType : UInt32) (desired : MarkedOffsetsARM) (patch : List UInt8) : List UInt8 :=
  encode 8 (patch.length + (2 + markedOffsetsExtensionSize desired)) ++ (encode 2 1 ++
    ((writeMarkedOffsetsExtension sType desired).flatten ++ patch))

theorem read_rewrittenTail {desired : MarkedOffsetsARM} {patch : List UInt8} (sType : UInt32)
    (hsmall : patch.length < 2 ^ 32) :
    WordStream.read 8 (rewrittenTail sType desired patch) =
      some (patch.length + (2 + markedOffsetsExtensionSize desired),
        encode 2 1 ++ ((writeMarkedOffsetsExtension sType desired).flatten ++ patch)) := by
  refine read_encode ?_
  have hcount := desired.count.toNat_lt
  unfold markedOffsetsExtensionSize
  split_ifs <;> omega

theorem readHeader_rewrittenTail {type : PacketType} {desired : MarkedOffsetsARM}
    {patch : List UInt8} (hversion : isVersion2 type = true) (hsmall : patch.length < 2 ^ 32)
    (hfits : desired.ArraysFit) :
    readHeader readers type (rewrittenTail readers.markedOffsets desired patch) =
      some (patch.length + (2 + markedOffsetsExtensionSize desired),
        .markedOffsets (cloneMarkedOffsets desired) .null, patch) := by
  have hflags : WordStream.read 2 (encode 2 1 ++
      ((writeMarkedOffsetsExtension readers.markedOffsets desired).flatten ++ patch)) =
        some (1, (writeMarkedOffsetsExtension readers.markedOffsets desired).flatten ++ patch) :=
    read_encode (by norm_num)
  obtain ⟨rounds, hrounds⟩ : ∃ rounds, ((writeMarkedOffsetsExtension readers.markedOffsets
      desired).flatten ++ patch).length + 1 = rounds + 2 := by
    refine ⟨((writeMarkedOffsetsExtension readers.markedOffsets desired).flatten ++
      patch).length - 1, ?_⟩
    rw [List.length_append, length_writeMarkedOffsetsExtension]
    omega
  rw [readHeader, if_pos hversion, readVersion2Packet, read_rewrittenTail _ hsmall,
    Option.bind_some]
  simp only [hflags, Option.bind_some, hrounds, readExtension_write readers hfits, Option.map_some,
    Nat.one_mod, if_true]

theorem length_rewrittenTail (sType : UInt32) (desired : MarkedOffsetsARM) (patch : List UInt8) :
    (rewrittenTail sType desired patch).length = 8 + (2 +
      ((writeMarkedOffsetsExtension sType desired).flatten.length + patch.length)) := by
  simp only [rewrittenTail, List.length_append, encode_length]

/-- What is read of a packet with such a tail. -/
theorem readUpdatePacket_rewrittenTail (readers : ExtensionReaders) (type : PacketType)
    {desired : MarkedOffsetsARM} {patch : List UInt8} (device object : Handle)
    (hversion : isVersion2 type = true) (hsmall : patch.length < 2 ^ 32)
    (hfits : desired.ArraysFit) :
    let output : Frame := ⟨type, device.bytes.flatten ++ (object.bytes.flatten ++
      rewrittenTail readers.markedOffsets desired patch)⟩
    ∃ written, readUpdatePacket readers output = some written ∧
      written.deviceIndex = device.index ∧ written.objectIndex = object.index ∧
      SizeRight output written ∧
      written.sptr = .markedOffsets (cloneMarkedOffsets desired) .null ∧
      output.payload.drop written.payloadStart = patch := by
  intro output
  have htail := length_rewrittenTail readers.markedOffsets desired patch
  refine ⟨_, readUpdatePacket_handles (readHeader_rewrittenTail hversion hsmall hfits),
    rfl, rfl, fun _ => ?_, rfl, ?_⟩
  · have hsize := (extensionSize_eq_iff readers.markedOffsets desired).mpr hfits
    simp only [output, length_handles, htail, hsize]
    omega
  · simp only [output, htail]
    rw [show 18 + (8 + (2 + ((writeMarkedOffsetsExtension readers.markedOffsets
      desired).flatten.length + patch.length))) - patch.length = 18 + (8 + (2 +
        (writeMarkedOffsetsExtension readers.markedOffsets desired).flatten.length)) by omega,
      drop_handles, rewrittenTail, ← List.drop_drop, ← List.drop_drop,
      List.drop_left' (encode_length 8 _), List.drop_left' (encode_length 2 _),
      List.drop_left' rfl]

/-- **A packet with other markings** carries them exactly if their arrays fit. -/
theorem rewritten_carries_iff {desired : MarkedOffsetsARM} {handles : List (List UInt8)}
    (hread : readUpdatePacket readers packet = some update)
    (hsmall : packet.size < 2 ^ 32) (hversion : isVersion2 packet.type = true)
    (hclone : cloneMarkedOffsets desired = desired)
    (hhandles : writeOutputUpdatePacketPrefix translate thread packet update.headerStart =
      some handles) :
    Carries readers packet update (.markedOffsets desired .null)
        ⟨packet.type, (rewrittenPieces readers packet update handles desired).flatten⟩ ↔
      desired.ArraysFit := by
  obtain ⟨device, object, hdevice, hobject, hflat⟩ := prefix_handles hread hhandles
  have hpatch : (packet.payload.drop update.payloadStart).length < 2 ^ 32 := by
    rw [List.length_drop]
    unfold Frame.size at hsmall
    omega
  have hpayload : (rewrittenPieces readers packet update handles desired).flatten =
      device.bytes.flatten ++ (object.bytes.flatten ++ rewrittenTail readers.markedOffsets desired
        (packet.payload.drop update.payloadStart)) := by
    simp only [rewrittenPieces, writeArray_drop hsmall, rewrittenTail, List.length_drop]
    simp [hflat]
  generalize hdrop : packet.payload.drop update.payloadStart = patch at hpatch hpayload
  have htail := length_rewrittenTail readers.markedOffsets desired patch
  rw [hpayload]
  constructor
  · rintro ⟨-, written, hwritten, -, -, hright, -, -⟩
    obtain ⟨device', object', size, sptr, rest, -, -, -, hheader, rfl⟩ :=
      readUpdatePacket_eq_some_iff.mp hwritten
    have hsize : size = patch.length + (2 + markedOffsetsExtensionSize desired) := by
      rw [show (18 : Nat) = 18 + 0 from rfl, drop_handles, List.drop_zero, readHeader,
        if_pos hversion, readVersion2Packet, read_rewrittenTail _ hpatch,
        Option.bind_some] at hheader
      obtain ⟨⟨flags, tail⟩, -, hheader⟩ := Option.bind_eq_some_iff.mp hheader
      simp only at hheader
      split_ifs at hheader
      · obtain ⟨⟨found, left⟩, -, heq⟩ := Option.map_eq_some_iff.mp hheader
        exact (congrArg Prod.fst heq).symm
      · exact (congrArg Prod.fst (Option.some.inj hheader)).symm
    have hcounted := hright hversion
    simp only [length_handles, htail, hsize] at hcounted
    rw [← extensionSize_eq_iff readers.markedOffsets]
    omega
  · intro hfits
    obtain ⟨written, hwritten, hfirst, hsecond, hright, hsptr, hrest⟩ :=
      readUpdatePacket_rewrittenTail readers packet.type device object hversion hpatch hfits
    exact ⟨rfl, written, hwritten, hfirst.trans hdevice, hsecond.trans hobject, hright,
      hclone ▸ hsptr, hrest.trans hdrop.symm⟩

/-- **Rewritten update packets.**  The predicted size of markings is right exactly if their arrays
fit; a copied packet carries what the packet carries; and a packet with other markings carries the
normalised ones exactly if their arrays fit. -/
theorem update_packets_rewritten (hread : readUpdatePacket readers packet = some update)
    (hsmall : packet.size < 2 ^ 32) :
    (∀ sType markings, markedOffsetsExtensionSize markings =
        (writeMarkedOffsetsExtension sType markings).flatten.length ↔ markings.ArraysFit) ∧
      (SizeRight packet update → ∀ calls,
        writeOutputUpdatePacket translate thread packet update = some calls →
        ∃ output, WritesPacket calls output ∧
          Carries readers packet update update.sptr output) ∧
      ∀ markings calls,
        maybeWriteRewrittenUpdatePacket readers sorting translate thread packet update
          (some markings) = some (some calls) →
        ∃ desired output,
          normalizeMarkedOffsets sorting (cloneMarkedOffsets markings) = some desired ∧
          WritesPacket calls output ∧
          (Carries readers packet update (.markedOffsets desired .null) output ↔
            desired.ArraysFit) := by
  refine ⟨extensionSize_eq_iff, fun hsize calls hcalls =>
    writeOutputUpdatePacket_carries hread hsmall hsize hcalls, fun markings calls hcalls => ?_⟩
  unfold maybeWriteRewrittenUpdatePacket at hcalls
  simp only at hcalls
  split_ifs at hcalls with hversion
  obtain ⟨existing, -, hcalls⟩ := Option.bind_eq_some_iff.mp hcalls
  obtain ⟨desired, hdesired, hcalls⟩ := Option.bind_eq_some_iff.mp hcalls
  obtain ⟨normalized, -, hcalls⟩ := Option.bind_eq_some_iff.mp hcalls
  split_ifs at hcalls with hsame
  · cases hcalls
  · obtain ⟨handles, hhandles, heq⟩ := Option.map_eq_some_iff.mp hcalls
    cases heq
    exact ⟨desired, _, hdesired, writesPacket_packetCalls _ _,
      rewritten_carries_iff hread hsmall hversion (clone_normalized hdesired) hhandles⟩

end

/-- Readers that know markings only. -/
def markingReaders : ExtensionReaders where
  markedOffsets := 1000
  other := fun _ _ => none
  markedOffsets_ne := by decide
  other_goesOn := fun _ _ _ h => by cases h

/-- The three values of a marking in one number. -/
def entryKey (entry : Entry) : Nat :=
  entry.offset.toNat * 2 ^ 96 + entry.markingType.toNat * 2 ^ 64 + entry.subType.toNat

theorem entryKey_lt {a b : Entry} (hbefore : a.Before b) : entryKey a < entryKey b := by
  have htype := a.markingType.toNat_lt
  have hsubType := a.subType.toNat_lt
  unfold Entry.Before at hbefore
  unfold entryKey
  split_ifs at hbefore with hoffset hmarkingType
  · have hlt := UInt64.lt_iff_toNat_lt.mp hbefore
    omega
  · have hlt := UInt32.lt_iff_toNat_lt.mp hbefore
    rw [not_not.mp hoffset]
    omega
  · have hlt := UInt64.lt_iff_toNat_lt.mp hbefore
    rw [not_not.mp hoffset, not_not.mp hmarkingType]
    omega

/-- One way of sorting markings. -/
def entrySorting : Sorting Entry.Before :=
  (Sorting.byKey entryKey).weaken fun _ _ => entryKey_lt

/-- Eight bytes for a buffer, without markings. -/
def plainPacket : Frame where
  type := .bufferUpdate2
  payload := (Handle.mk 0 255 0).bytes.flatten ++ (Handle.mk 3 255 0).bytes.flatten ++
    encode 8 26 ++ encode 2 0 ++
    encode 4 0 ++ encode 4 8 ++ encode 8 4096 ++ encode 4 0 ++ encode 4 0

/-- Two addresses in the wrong order, one of them twice. -/
def threeMarkings : MarkedOffsetsARM where
  count := 3
  pMarkingTypes := some [1, 1, 1]
  pSubTypes := some [0, 0, 0]
  pOffsets := some [8, 0, 8]
  typesLength := by decide
  subTypesLength := by decide
  offsetsLength := by decide

theorem update_packets_rewritten_plain :
    ∃ desired output, normalizeMarkedOffsets entrySorting (cloneMarkedOffsets threeMarkings) =
        some desired ∧ desired.pOffsets = some [0, 8] ∧
      Carries markingReaders plainPacket ⟨0, 3, 18, 28, 26, .null⟩ (.markedOffsets desired .null)
        output := by
  have hread : readUpdatePacket markingReaders plainPacket = some ⟨0, 3, 18, 28, 26, .null⟩ := by
    decide
  have hrewritten : (maybeWriteRewrittenUpdatePacket markingReaders entrySorting
      (fun _ _ => none) 0 plainPacket ⟨0, 3, 18, 28, 26, .null⟩
      (some threeMarkings)).join.isSome := by
    decide
  obtain ⟨calls, hcalls⟩ := Option.isSome_iff_exists.mp hrewritten
  obtain ⟨desired, output, hdesired, -, hcarries⟩ :=
    (update_packets_rewritten hread (by decide)).2.2 threeMarkings calls
      (Option.join_eq_some_iff.mp hcalls)
  have hoffsets : (normalizeMarkedOffsets entrySorting (cloneMarkedOffsets threeMarkings)).map
      (fun desired => (desired.pOffsets, decide desired.ArraysFit)) = some (some [0, 8], true) := by
    decide
  rw [hdesired, Option.map_some, Option.some_inj, Prod.mk.injEq] at hoffsets
  exact ⟨desired, output, hdesired, hoffsets.1, hcarries.mpr (of_decide_eq_true hoffsets.2)⟩

/-- Offsets of 4 GiB in all. -/
def manyOffsets : MarkedOffsetsARM where
  count := 536870912
  pMarkingTypes := none
  pSubTypes := none
  pOffsets := some (List.replicate 536870912 0)
  typesLength := fun _ h => by cases h
  subTypesLength := fun _ h => by cases h
  offsetsLength := fun _ h => by
    cases h
    rw [List.length_replicate]
    rfl

/-- They are counted, and not written. -/
theorem manyOffsets_drift :
    ¬ ∀ sType markings, markedOffsetsExtensionSize markings =
      (writeMarkedOffsetsExtension sType markings).flatten.length := by
  intro hall
  have hsize := hall 1000 manyOffsets
  rw [length_writeMarkedOffsetsExtension] at hsize
  have hcount : manyOffsets.count.toNat = 2 ^ 29 := rfl
  have hpos : 0 < manyOffsets.count := by decide
  have hoffsets : manyOffsets.pOffsets.isSome = true := rfl
  have htypes : manyOffsets.pMarkingTypes.isSome = false := rfl
  have hsubTypes : manyOffsets.pSubTypes.isSome = false := rfl
  simp only [markedOffsetsExtensionSize, hcount, hpos, hoffsets, htypes, hsubTypes] at hsize
  norm_num at hsize

end UpdateRewrite
end Lavatube
