import Lavatube.Lib.Sorting
import Lavatube.Lib.WordStream
import Lavatube.Packets

/-!
# Update packets

An update packet has the handles of a device and an object, and a patch of the memory of the
object.  In the second version of the format a header stands between them: a 64-bit size, flags,
and a chain of extension structures, in which the markings of the patch are.

* `MarkedOffsetsARM` — markings: their number and three arrays, each of which may be absent.
* `writeMarkedOffsetsExtension`, `markedOffsetsExtensionSize` — the bytes of markings, and their
  predicted number.
* `readUpdatePacket` — what a reader keeps of an update packet.
* `readExtension_write` — markings are read back.
* `extensionSize_eq_iff` — when the prediction is right.
-/

namespace Lavatube
namespace UpdatePackets

open WordStream LittleEndian Packets

/-! ### Markings -/

/-- `VkMarkedOffsetsARM` without its `pNext`; a null pointer is `none`.  A subtype is a union of
eight bytes. -/
@[ext]
structure MarkedOffsetsARM where
  count : UInt32
  pMarkingTypes : Option (List UInt32)
  pSubTypes : Option (List UInt64)
  pOffsets : Option (List UInt64)
  typesLength : ∀ types ∈ pMarkingTypes, types.length = count.toNat
  subTypesLength : ∀ subTypes ∈ pSubTypes, subTypes.length = count.toNat
  offsetsLength : ∀ offsets ∈ pOffsets, offsets.length = count.toNat
deriving DecidableEq

/-- `clone_marked_offsets` of markings that are there: without markings there are no arrays. -/
def cloneMarkedOffsets (src : MarkedOffsetsARM) : MarkedOffsetsARM :=
  if src.count = 0 then
    { count := src.count
      pMarkingTypes := none
      pSubTypes := none
      pOffsets := none
      typesLength := fun _ h => by cases h
      subTypesLength := fun _ h => by cases h
      offsetsLength := fun _ h => by cases h }
  else
    src

/-- One marking. -/
structure Entry where
  offset : UInt64
  markingType : UInt32
  subType : UInt64
deriving DecidableEq, Repr

/-- The order of `sort_marked_offsets`. -/
def Entry.Before (a b : Entry) : Prop :=
  if a.offset ≠ b.offset then a.offset < b.offset
  else if a.markingType ≠ b.markingType then a.markingType < b.markingType
  else a.subType < b.subType

/-- The markings one by one, when all arrays are there. -/
def MarkedOffsetsARM.entries (markings : MarkedOffsetsARM) : Option (List Entry) :=
  match markings.pOffsets, markings.pMarkingTypes, markings.pSubTypes with
  | some offsets, some types, some subTypes =>
      some ((offsets.zip (types.zip subTypes)).map fun (offset, type, subType) =>
        ⟨offset, type, subType⟩)
  | _, _, _ => none

/-- Markings with all arrays. -/
def MarkedOffsetsARM.ofEntries (entries : List Entry) (hsmall : entries.length < 2 ^ 32) :
    MarkedOffsetsARM where
  count := UInt32.ofNat entries.length
  pMarkingTypes := some (entries.map Entry.markingType)
  pSubTypes := some (entries.map Entry.subType)
  pOffsets := some (entries.map Entry.offset)
  typesLength := fun _ h => by
    cases h
    rw [List.length_map, UInt32.toNat_ofNat_of_lt' hsmall]
  subTypesLength := fun _ h => by
    cases h
    rw [List.length_map, UInt32.toNat_ofNat_of_lt' hsmall]
  offsetsLength := fun _ h => by
    cases h
    rw [List.length_map, UInt32.toNat_ofNat_of_lt' hsmall]

/-- The loop of `normalize_marked_offsets` behind the marking that was kept last. -/
def dropRepeats (last : Entry) : List Entry → List Entry
  | [] => []
  | entry :: entries =>
      if entry = last then dropRepeats last entries else entry :: dropRepeats entry entries

theorem length_dropRepeats_le (last : Entry) (entries : List Entry) :
    (dropRepeats last entries).length ≤ entries.length := by
  induction entries generalizing last with
  | nil => exact le_rfl
  | cons entry entries ih =>
      unfold dropRepeats
      split_ifs
      · exact (ih last).trans (Nat.le_succ _)
      · exact Nat.succ_le_succ (ih entry)

/-- What is left of sorted markings. -/
def unique : List Entry → List Entry
  | [] => []
  | entry :: entries => entry :: dropRepeats entry entries

theorem length_unique_le (entries : List Entry) : (unique entries).length ≤ entries.length := by
  cases entries with
  | nil => exact le_rfl
  | cons entry entries => exact Nat.succ_le_succ (length_dropRepeats_le entry entries)

theorem MarkedOffsetsARM.length_entries {markings : MarkedOffsetsARM} {entries : List Entry}
    (hentries : markings.entries = some entries) : entries.length = markings.count.toNat := by
  unfold MarkedOffsetsARM.entries at hentries
  split at hentries
  · next offsets types subTypes hoffsets htypes hsubTypes =>
      cases hentries
      simp [markings.offsetsLength offsets hoffsets, markings.typesLength types htypes,
        markings.subTypesLength subTypes hsubTypes]
  · cases hentries

theorem entries_ofEntries (entries : List Entry) (hfew : entries.length < 2 ^ 32) :
    (MarkedOffsetsARM.ofEntries entries hfew).entries = some entries := by
  have hzip : ∀ l : List Entry, ((l.map Entry.offset).zip ((l.map Entry.markingType).zip
      (l.map Entry.subType))).map (fun t => Entry.mk t.1 t.2.1 t.2.2) = l := by
    intro l
    induction l with
    | nil => rfl
    | cons entry l ih => rw [List.map_cons, List.map_cons, List.map_cons, List.zip_cons_cons,
        List.zip_cons_cons, List.map_cons, ih]
  exact congrArg some (hzip entries)

/-- `normalize_marked_offsets`; `none` is a failed assertion. -/
def normalizeMarkedOffsets (sorting : Sorting Entry.Before) (markings : MarkedOffsetsARM) :
    Option MarkedOffsetsARM :=
  if markings.count ≤ 1 then some markings
  else
    match hentries : markings.entries with
    | none => none
    | some entries =>
        some (.ofEntries (unique (sorting.sort entries)) (by
          have hle := length_unique_le (sorting.sort entries)
          have hlength := (sorting.perm entries).length_eq
          have hcount := MarkedOffsetsARM.length_entries hentries
          have hlt := markings.count.toNat_lt
          omega))

/-- `marked_offsets_difference`; all markings have the same `sType`. -/
inductive MarkedOffsetsDifference where
  | none
  | missingLeft
  | missingRight
  | count
  | markingTypesMissing
  | subTypesMissing
  | offsetsMissing
  | markingTypes
  | subTypes
  | offsets
deriving DecidableEq, Repr

/-- `compare_marked_offsets`. -/
def compareMarkedOffsets : Option MarkedOffsetsARM → Option MarkedOffsetsARM →
    MarkedOffsetsDifference
  | none, none => .none
  | none, some _ => .missingLeft
  | some _, none => .missingRight
  | some a, some b =>
      if a.count ≠ b.count then .count
      else if a.count = 0 then .none
      else if a.pMarkingTypes.isNone ∨ b.pMarkingTypes.isNone then .markingTypesMissing
      else if a.pSubTypes.isNone ∨ b.pSubTypes.isNone then .subTypesMissing
      else if a.pOffsets.isNone ∨ b.pOffsets.isNone then .offsetsMissing
      else if a.pMarkingTypes ≠ b.pMarkingTypes then .markingTypes
      else if a.pSubTypes ≠ b.pSubTypes then .subTypes
      else if a.pOffsets ≠ b.pOffsets then .offsets
      else .none

/-! ### Writing markings -/

/-- `write_array` of bytes: the length is a parameter of 32 bits. -/
def writeArray (bytes : List UInt8) : List UInt8 := bytes.take (bytes.length % 2 ^ 32)

/-- An array that may be absent. -/
def writeOptional (count : UInt32) : Option (List UInt8) → List (List UInt8)
  | some bytes => if 0 < count then [[1], writeArray bytes] else [[0]]
  | none => [[0]]

/-- The bytes of the three arrays. -/
def MarkedOffsetsARM.typesBytes (markings : MarkedOffsetsARM) : Option (List UInt8) :=
  markings.pMarkingTypes.map fun types => encodeAll 4 (types.map UInt32.toNat)

def MarkedOffsetsARM.subTypesBytes (markings : MarkedOffsetsARM) : Option (List UInt8) :=
  markings.pSubTypes.map fun subTypes => encodeAll 8 (subTypes.map UInt64.toNat)

def MarkedOffsetsARM.offsetsBytes (markings : MarkedOffsetsARM) : Option (List UInt8) :=
  markings.pOffsets.map fun offsets => encodeAll 8 (offsets.map UInt64.toNat)

/-- `write_marked_offsets_extension`, one piece for each write. -/
def writeMarkedOffsetsExtension (sType : UInt32) (markings : MarkedOffsetsARM) :
    List (List UInt8) :=
  [encode 4 sType.toNat, encode 4 sType.toNat, encode 4 0, encode 4 markings.count.toNat] ++
    writeOptional markings.count markings.typesBytes ++
    writeOptional markings.count markings.subTypesBytes ++
    writeOptional markings.count markings.offsetsBytes

/-- `marked_offsets_extension_size`. -/
def markedOffsetsExtensionSize (markings : MarkedOffsetsARM) : Nat :=
  4 + 4 + 4 + 4 +
    1 + (if markings.pMarkingTypes.isSome ∧ 0 < markings.count then markings.count.toNat * 4
      else 0) +
    1 + (if markings.pSubTypes.isSome ∧ 0 < markings.count then markings.count.toNat * 8
      else 0) +
    1 + (if markings.pOffsets.isSome ∧ 0 < markings.count then markings.count.toNat * 8 else 0)

/-! ### Reading -/

/-- The generated readers of extension structures: the `sType` of markings, and what is left of the
stream behind other structures.  Reading only goes on. -/
structure ExtensionReaders where
  markedOffsets : UInt32
  other : UInt32 → List UInt8 → Option (List UInt8)
  markedOffsets_ne : markedOffsets ≠ 0
  other_goesOn : ∀ sType input rest, other sType input = some rest → rest.length ≤ input.length

/-- A chain of extension structures. -/
inductive Extension where
  | null
  | markedOffsets (markings : MarkedOffsetsARM) (pNext : Extension)
  | other (sType : UInt32)
deriving DecidableEq

/-- `read_array` into cleared memory of the pool, which has room for it; its size is a number of
32 bits.  For nothing there is no memory, and nothing is read. -/
def readArray (width count : Nat) (input : List UInt8) :
    Option (Option (List Nat) × List UInt8) :=
  if count = 0 then some (none, input)
  else
    (take? (width * count % 2 ^ 32) input).map fun (bytes, rest) =>
      (some (decodeAll width count (bytes ++ List.replicate (width * count - bytes.length) 0)),
        rest)

/-- An array that may be absent, with a flag in front. -/
def readOptional (width count : Nat) (input : List UInt8) :
    Option (Option (List Nat) × List UInt8) :=
  (read 1 input).bind fun (opt, input) =>
    if opt ≠ 0 then readArray width count input else some (none, input)

theorem length_readArray {width count : Nat} {input rest : List UInt8}
    {values : Option (List Nat)} (hread : readArray width count input = some (values, rest)) :
    (∀ l ∈ values, l.length = count) ∧ rest.length ≤ input.length := by
  unfold readArray at hread
  split_ifs at hread
  · obtain ⟨rfl, rfl⟩ := Prod.mk.inj (Option.some.inj hread)
    exact ⟨by simp, le_rfl⟩
  · obtain ⟨⟨bytes, more⟩, htake, heq⟩ := Option.map_eq_some_iff.mp hread
    obtain ⟨rfl, rfl⟩ := Prod.mk.inj heq
    obtain ⟨-, rfl⟩ := take?_eq_some_iff.mp htake
    refine ⟨?_, ?_⟩
    · rintro l ⟨⟩
      exact length_decodeAll
    · rw [List.length_append]
      exact Nat.le_add_left ..

theorem length_readOptional {width count : Nat} {input rest : List UInt8}
    {values : Option (List Nat)} (hread : readOptional width count input = some (values, rest)) :
    ∀ l ∈ values, l.length = count := by
  unfold readOptional at hread
  obtain ⟨⟨opt, tail⟩, -, hvalues⟩ := Option.bind_eq_some_iff.mp hread
  simp only at hvalues
  split_ifs at hvalues
  · exact (length_readArray hvalues).1
  · obtain ⟨rfl, rfl⟩ := Prod.mk.inj (Option.some.inj hvalues)
    rintro l ⟨⟩

/-- What `read_VkMarkedOffsetsARM` reads behind `pNext`. -/
def readMarkings (input : List UInt8) : Option (MarkedOffsetsARM × List UInt8) :=
  match read 4 input with
  | none => none
  | some (count, input) =>
      match htypes : readOptional 4 (UInt32.ofNat count).toNat input with
      | none => none
      | some (types, input) =>
          match hsubTypes : readOptional 8 (UInt32.ofNat count).toNat input with
          | none => none
          | some (subTypes, input) =>
              match hoffsets : readOptional 8 (UInt32.ofNat count).toNat input with
              | none => none
              | some (offsets, input) =>
                  some ({
                    count := UInt32.ofNat count
                    pMarkingTypes := types.map (List.map UInt32.ofNat)
                    pSubTypes := subTypes.map (List.map UInt64.ofNat)
                    pOffsets := offsets.map (List.map UInt64.ofNat)
                    typesLength := fun l hl => by
                      obtain ⟨values, hvalues, rfl⟩ := Option.map_eq_some_iff.mp hl
                      rw [List.length_map]
                      exact length_readOptional htypes values hvalues
                    subTypesLength := fun l hl => by
                      obtain ⟨values, hvalues, rfl⟩ := Option.map_eq_some_iff.mp hl
                      rw [List.length_map]
                      exact length_readOptional hsubTypes values hvalues
                    offsetsLength := fun l hl => by
                      obtain ⟨values, hvalues, rfl⟩ := Option.map_eq_some_iff.mp hl
                      rw [List.length_map]
                      exact length_readOptional hoffsets values hvalues }, input)

/-- `read_extension`, which reads at least four bytes in each round. -/
def readExtension (readers : ExtensionReaders) : Nat → List UInt8 → Option (Extension × List UInt8)
  | 0, _ => none
  | rounds + 1, input =>
      (read 4 input).bind fun (pNextType, input) =>
        if pNextType = 0 then some (.null, input)
        else if pNextType = readers.markedOffsets.toNat then
          -- `read_VkMarkedOffsetsARM`
          (read 4 input).bind fun (sType, input) =>
            if sType = readers.markedOffsets.toNat then
              (readExtension readers rounds input).bind fun (pNext, input) =>
                (readMarkings input).map fun (markings, input) =>
                  (.markedOffsets markings pNext, input)
            else none
        else
          (readers.other (UInt32.ofNat pNextType) input).map fun input =>
            (.other (UInt32.ofNat pNextType), input)

/-- A handle: the index of an object, and the packet that has to be there before it. -/
structure Handle where
  index : UInt32
  reqThread : UInt8
  reqPacket : UInt32
deriving DecidableEq, Repr

/-- The bytes of a handle. -/
def Handle.bytes (handle : Handle) : List (List UInt8) :=
  [encode 4 handle.index.toNat, [handle.reqThread], encode 4 handle.reqPacket.toNat]

/-- The reads of `read_handle`. -/
def readHandle (input : List UInt8) : Option (Handle × List UInt8) :=
  (read 4 input).bind fun (index, input) =>
    (read 1 input).bind fun (reqThread, input) =>
      (read 4 input).map fun (reqPacket, input) =>
        (⟨UInt32.ofNat index, UInt8.ofNat reqThread, UInt32.ofNat reqPacket⟩, input)

/-- The packets of the second version of the format. -/
def isVersion2 : PacketType → Bool
  | .bufferUpdate2 | .imageUpdate2 | .tensorUpdate => true
  | _ => false

/-- `is_update_packet`. -/
def isUpdatePacket : PacketType → Bool
  | .bufferUpdate | .imageUpdate => true
  | type => isVersion2 type

/-- `output_update_packet`; the starts are counted from the first handle on. -/
structure OutputUpdatePacket where
  deviceIndex : UInt32
  objectIndex : UInt32
  headerStart : Nat
  payloadStart : Nat
  size : Nat
  sptr : Extension
deriving DecidableEq

/-- `read_version2_packet`. -/
def readVersion2Packet (readers : ExtensionReaders) (input : List UInt8) :
    Option (Nat × Extension × List UInt8) :=
  (read 8 input).bind fun (size, input) =>
    (read 2 input).bind fun (flags, input) =>
      -- `PACKET_FLAG_HAS_PNEXT` is the lowest bit
      if flags % 2 = 1 then
        (readExtension readers (input.length + 1) input).map fun (sptr, input) =>
          (size, sptr, input)
      else if flags = 0 then some (size, .null, input)
      else none

/-- What is between the handles and the patch. -/
def readHeader (readers : ExtensionReaders) (type : PacketType) (input : List UInt8) :
    Option (Nat × Extension × List UInt8) :=
  if isVersion2 type then readVersion2Packet readers input else some (0, .null, input)

/-- What `update_image_packet`, `update_buffer_packet` and `update_tensor_packet` note of a packet
before they read the patch. -/
def readUpdatePacket (readers : ExtensionReaders) (packet : Frame) : Option OutputUpdatePacket :=
  (readHandle packet.payload).bind fun (device, input) =>
    (readHandle input).bind fun (object, input) =>
      let headerStart := packet.payload.length - input.length
      (readHeader readers packet.type input).map fun (size, sptr, input) =>
        { deviceIndex := device.index
          objectIndex := object.index
          headerStart := headerStart
          payloadStart := packet.payload.length - input.length
          size := size
          sptr := sptr }

/-! ### Markings are read back -/

/-- The arrays that are there have fewer bytes than a length of 32 bits can tell. -/
structure MarkedOffsetsARM.ArraysFit (markings : MarkedOffsetsARM) : Prop where
  types : markings.pMarkingTypes.isSome → markings.count.toNat * 4 < 2 ^ 32
  subTypes : markings.pSubTypes.isSome → markings.count.toNat * 8 < 2 ^ 32
  offsets : markings.pOffsets.isSome → markings.count.toNat * 8 < 2 ^ 32

instance (markings : MarkedOffsetsARM) : Decidable markings.ArraysFit :=
  decidable_of_iff ((markings.pMarkingTypes.isSome → markings.count.toNat * 4 < 2 ^ 32) ∧
      (markings.pSubTypes.isSome → markings.count.toNat * 8 < 2 ^ 32) ∧
      (markings.pOffsets.isSome → markings.count.toNat * 8 < 2 ^ 32))
    ⟨fun h => ⟨h.1, h.2.1, h.2.2⟩, fun h => ⟨h.types, h.subTypes, h.offsets⟩⟩

section

variable {width : Nat} {count : UInt32} {bytes rest : List UInt8} {markings : MarkedOffsetsARM}
variable {values : Option (List Nat)} {readers : ExtensionReaders}

theorem writeArray_eq (hfits : bytes.length < 2 ^ 32) : writeArray bytes = bytes := by
  rw [writeArray, Nat.mod_eq_of_lt hfits, List.take_length]

/-- An array is read back, unless it is empty. -/
theorem readOptional_write {A : Type} {array : Option (List A)} {toNat : A → Nat}
    (hlength : ∀ l ∈ array, l.length = count.toNat)
    (hfits : array.isSome → count.toNat * width < 2 ^ 32) (hlt : ∀ a, toNat a < 256 ^ width) :
    readOptional width count.toNat
        ((writeOptional count (array.map fun l => encodeAll width (l.map toNat))).flatten ++ rest) =
      some (if count = 0 then none else array.map (List.map toNat), rest) := by
  cases array with
  | none =>
      simp [writeOptional, readOptional, WordStream.read, take?, decode]
  | some l =>
      have hlen : (l.map toNat).length = count.toNat := by
        rw [List.length_map, hlength l rfl]
      by_cases hzero : count = 0
      · subst hzero
        simp [writeOptional, readOptional, WordStream.read, take?, decode]
      · have hcount : count.toNat ≠ 0 := fun h => hzero (UInt32.toNat_inj.mp h)
        have hpos : 0 < count := UInt32.lt_iff_toNat_lt.mpr (Nat.pos_of_ne_zero hcount)
        have hbytes : (encodeAll width (l.map toNat)).length = width * count.toNat := by
          rw [length_encodeAll, hlen]
        have hsmall : width * count.toNat < 2 ^ 32 := by
          rw [Nat.mul_comm]
          exact hfits rfl
        have hvalues : ∀ value ∈ l.map toNat, value < 256 ^ width := by
          intro value hvalue
          obtain ⟨a, -, rfl⟩ := List.mem_map.mp hvalue
          exact hlt a
        have harray : readArray width count.toNat (encodeAll width (l.map toNat) ++ rest) =
            some (some (l.map toNat), rest) := by
          simp only [readArray, hcount, if_false, Nat.mod_eq_of_lt hsmall, take?_append hbytes,
            Option.map_some, hbytes, Nat.sub_self, List.replicate_zero, List.append_nil]
          rw [← hlen, decodeAll_encodeAll hvalues]
        have hwrite : (writeOptional count
            ((some l).map fun l => encodeAll width (l.map toNat))).flatten ++ rest =
              [1] ++ (encodeAll width (l.map toNat) ++ rest) := by
          rw [Option.map_some, writeOptional, if_pos hpos,
            writeArray_eq (by rw [hbytes]; exact hsmall)]
          simp
        have hopt : WordStream.read 1 ([1] ++ (encodeAll width (l.map toNat) ++ rest)) =
            some (1, encodeAll width (l.map toNat) ++ rest) := by
          simp [WordStream.read, take?, decode]
        rw [hwrite, readOptional, hopt, Option.bind_some]
        simp only [ne_eq, one_ne_zero, not_false_eq_true, if_true, harray, Option.map_some, hzero,
          if_false]

theorem map_back32 (array : Option (List UInt32)) :
    array.map (List.map UInt32.ofNat ∘ List.map UInt32.toNat) = array := by
  cases array with
  | none => rfl
  | some l => simp [Function.comp_def]

theorem map_back64 (array : Option (List UInt64)) :
    array.map (List.map UInt64.ofNat ∘ List.map UInt64.toNat) = array := by
  cases array with
  | none => rfl
  | some l => simp [Function.comp_def]

/-- The bytes of markings behind `pNext`. -/
def markingsBytes (markings : MarkedOffsetsARM) : List UInt8 :=
  encode 4 markings.count.toNat ++
    ((writeOptional markings.count markings.typesBytes).flatten ++
      ((writeOptional markings.count markings.subTypesBytes).flatten ++
        (writeOptional markings.count markings.offsetsBytes).flatten))

theorem readMarkings_write (hfits : markings.ArraysFit) :
    readMarkings (markingsBytes markings ++ rest) = some (cloneMarkedOffsets markings, rest) := by
  have hcount : WordStream.read 4 (markingsBytes markings ++ rest) =
      some (markings.count.toNat, (writeOptional markings.count markings.typesBytes).flatten ++
        ((writeOptional markings.count markings.subTypesBytes).flatten ++
          ((writeOptional markings.count markings.offsetsBytes).flatten ++ rest))) := by
    simp only [markingsBytes, List.append_assoc]
    exact read_encode markings.count.toNat_lt
  have htypes : ∀ rest, readOptional 4 markings.count.toNat
      ((writeOptional markings.count markings.typesBytes).flatten ++ rest) =
        some (if markings.count = 0 then none else
          markings.pMarkingTypes.map (List.map UInt32.toNat), rest) :=
    fun rest => readOptional_write markings.typesLength hfits.types UInt32.toNat_lt
  have hsubTypes : ∀ rest, readOptional 8 markings.count.toNat
      ((writeOptional markings.count markings.subTypesBytes).flatten ++ rest) =
        some (if markings.count = 0 then none else
          markings.pSubTypes.map (List.map UInt64.toNat), rest) :=
    fun rest => readOptional_write markings.subTypesLength hfits.subTypes UInt64.toNat_lt
  have hoffsets : ∀ rest, readOptional 8 markings.count.toNat
      ((writeOptional markings.count markings.offsetsBytes).flatten ++ rest) =
        some (if markings.count = 0 then none else
          markings.pOffsets.map (List.map UInt64.toNat), rest) :=
    fun rest => readOptional_write markings.offsetsLength hfits.offsets UInt64.toNat_lt
  have hsame : UInt32.ofNat markings.count.toNat = markings.count := UInt32.ofNat_toNat
  unfold readMarkings
  rw [hcount]
  simp only
  split
  · next hnone =>
      rw [hsame, htypes] at hnone
      cases hnone
  · next types input htypesRead =>
      rw [hsame, htypes] at htypesRead
      obtain ⟨rfl, rfl⟩ := Prod.mk.inj (Option.some.inj htypesRead)
      split
      · next hnone =>
          rw [hsame, hsubTypes] at hnone
          cases hnone
      · next subTypes input hsubTypesRead =>
          rw [hsame, hsubTypes] at hsubTypesRead
          obtain ⟨rfl, rfl⟩ := Prod.mk.inj (Option.some.inj hsubTypesRead)
          split
          · next hnone =>
              rw [hsame, hoffsets] at hnone
              cases hnone
          · next offsets input hoffsetsRead =>
              rw [hsame, hoffsets] at hoffsetsRead
              obtain ⟨rfl, rfl⟩ := Prod.mk.inj (Option.some.inj hoffsetsRead)
              refine congrArg some (Prod.ext (MarkedOffsetsARM.ext ?_ ?_ ?_ ?_) rfl)
              · simp [cloneMarkedOffsets, apply_ite MarkedOffsetsARM.count]
              · by_cases hzero : markings.count = 0
                · simp [cloneMarkedOffsets, hzero]
                · simp only [cloneMarkedOffsets, hzero, if_false, Option.map_map]
                  exact map_back32 _
              · by_cases hzero : markings.count = 0
                · simp [cloneMarkedOffsets, hzero]
                · simp only [cloneMarkedOffsets, hzero, if_false, Option.map_map]
                  exact map_back64 _
              · by_cases hzero : markings.count = 0
                · simp [cloneMarkedOffsets, hzero]
                · simp only [cloneMarkedOffsets, hzero, if_false, Option.map_map]
                  exact map_back64 _

theorem writeMarkedOffsetsExtension_flatten (sType : UInt32) (markings : MarkedOffsetsARM) :
    (writeMarkedOffsetsExtension sType markings).flatten =
      encode 4 sType.toNat ++ (encode 4 sType.toNat ++ (encode 4 0 ++ markingsBytes markings)) := by
  simp [writeMarkedOffsetsExtension, markingsBytes]

/-- **Markings are read back**, with `pNext` terminated, if their arrays fit. -/
theorem readExtension_write (readers : ExtensionReaders) (hfits : markings.ArraysFit)
    (rounds : Nat) :
    readExtension readers (rounds + 2)
        ((writeMarkedOffsetsExtension readers.markedOffsets markings).flatten ++ rest) =
      some (.markedOffsets (cloneMarkedOffsets markings) .null, rest) := by
  have htype : ∀ rest, WordStream.read 4 (encode 4 readers.markedOffsets.toNat ++ rest) =
      some (readers.markedOffsets.toNat, rest) :=
    fun rest => read_encode readers.markedOffsets.toNat_lt
  have hzero : ∀ rest, WordStream.read 4 (encode 4 0 ++ rest) = some (0, rest) :=
    fun rest => read_encode (by norm_num)
  have hne : readers.markedOffsets.toNat ≠ 0 :=
    fun h => readers.markedOffsets_ne (UInt32.toNat_inj.mp h)
  rw [writeMarkedOffsetsExtension_flatten]
  simp only [List.append_assoc, readExtension, htype, Option.bind_some, hne, if_false, if_true,
    hzero, readMarkings_write hfits, Option.map_some]

theorem length_writeOptional {A : Type} (width : Nat) (toNat : A → Nat)
    {array : Option (List A)} (hlength : ∀ l ∈ array, l.length = count.toNat) :
    (writeOptional count (array.map fun l => encodeAll width (l.map toNat))).flatten.length =
      1 + if array.isSome ∧ 0 < count then count.toNat * width % 2 ^ 32 else 0 := by
  cases array with
  | none => simp [writeOptional]
  | some l =>
      have hbytes : (encodeAll width (l.map toNat)).length = count.toNat * width := by
        rw [length_encodeAll, List.length_map, hlength l rfl, Nat.mul_comm]
      by_cases hpos : 0 < count
      · have htake : (writeArray (encodeAll width (l.map toNat))).length =
            count.toNat * width % 2 ^ 32 := by
          rw [writeArray, hbytes, List.length_take_of_le]
          rw [hbytes]
          exact Nat.mod_le _ _
        simp only [writeOptional, Option.map_some, hpos, if_true, List.flatten_cons,
          List.flatten_nil, List.append_nil, List.length_append, htake, Option.isSome_some,
          and_self, List.length_singleton]
      · simp [writeOptional, hpos]

theorem length_writeMarkedOffsetsExtension (sType : UInt32) (markings : MarkedOffsetsARM) :
    (writeMarkedOffsetsExtension sType markings).flatten.length =
      19 + (if markings.pMarkingTypes.isSome ∧ 0 < markings.count then
          markings.count.toNat * 4 % 2 ^ 32 else 0) +
        (if markings.pSubTypes.isSome ∧ 0 < markings.count then
          markings.count.toNat * 8 % 2 ^ 32 else 0) +
        if markings.pOffsets.isSome ∧ 0 < markings.count then
          markings.count.toNat * 8 % 2 ^ 32 else 0 := by
  have htypes := length_writeOptional 4 UInt32.toNat markings.typesLength
  have hsubTypes := length_writeOptional 8 UInt64.toNat markings.subTypesLength
  have hoffsets := length_writeOptional 8 UInt64.toNat markings.offsetsLength
  rw [writeMarkedOffsetsExtension_flatten, markingsBytes]
  simp only [List.length_append, encode_length, MarkedOffsetsARM.typesBytes,
    MarkedOffsetsARM.subTypesBytes, MarkedOffsetsARM.offsetsBytes, htypes, hsubTypes, hoffsets]
  omega

/-- **The predicted size** of markings is right exactly if their arrays fit. -/
theorem extensionSize_eq_iff (sType : UInt32) (markings : MarkedOffsetsARM) :
    markedOffsetsExtensionSize markings =
      (writeMarkedOffsetsExtension sType markings).flatten.length ↔ markings.ArraysFit := by
  rw [length_writeMarkedOffsetsExtension, markedOffsetsExtensionSize]
  have hcount : ¬ 0 < markings.count → markings.count.toNat = 0 := by
    intro h
    rw [UInt32.lt_iff_toNat_lt] at h
    exact Nat.eq_zero_of_not_pos h
  constructor
  · intro hsize
    by_cases hpos : 0 < markings.count
    · simp only [hpos, and_true] at hsize
      constructor
      all_goals
        intro hsome
        simp only [hsome, if_true] at hsize
        split_ifs at hsize <;> omega
    · have hzero := hcount hpos
      exact ⟨fun _ => by omega, fun _ => by omega, fun _ => by omega⟩
  · intro hfits
    have hkept : ∀ (array : Bool) (size : Nat), (array = true → size < 2 ^ 32) →
        (if array = true ∧ 0 < markings.count then size % 2 ^ 32 else 0) =
          if array = true ∧ 0 < markings.count then size else 0 := by
      intro array size hsmall
      split_ifs with hthere
      · exact Nat.mod_eq_of_lt (hsmall hthere.1)
      · rfl
    rw [hkept _ _ hfits.types, hkept _ _ hfits.subTypes, hkept _ _ hfits.offsets]
    omega

/-! ### Reading goes on -/

theorem length_rest_of_read {input : List UInt8} {value : Nat}
    (hread : WordStream.read width input = some (value, rest)) : rest.length ≤ input.length := by
  obtain ⟨bytes, -, -, rfl⟩ := read_eq_some_iff.mp hread
  simp

theorem length_rest_of_readOptional {n : Nat} {input : List UInt8} {array : Option (List Nat)}
    (hread : readOptional width n input = some (array, rest)) : rest.length ≤ input.length := by
  unfold readOptional at hread
  obtain ⟨⟨opt, tail⟩, hopt, hvalues⟩ := Option.bind_eq_some_iff.mp hread
  have hle := length_rest_of_read hopt
  simp only at hvalues
  split_ifs at hvalues
  · exact (length_readArray hvalues).2.trans hle
  · obtain ⟨-, rfl⟩ := Prod.mk.inj (Option.some.inj hvalues)
    exact hle

theorem length_rest_of_readMarkings {input : List UInt8}
    (hread : readMarkings input = some (markings, rest)) : rest.length ≤ input.length := by
  unfold readMarkings at hread
  split at hread
  · cases hread
  · next count tail hcount =>
      have hle := length_rest_of_read hcount
      split at hread
      · cases hread
      · next types tail htypes =>
          have htypesLe := length_rest_of_readOptional htypes
          split at hread
          · cases hread
          · next subTypes tail hsubTypes =>
              have hsubTypesLe := length_rest_of_readOptional hsubTypes
              split at hread
              · cases hread
              · next offsets tail hoffsets =>
                  have hoffsetsLe := length_rest_of_readOptional hoffsets
                  obtain ⟨-, rfl⟩ := Prod.mk.inj (Option.some.inj hread)
                  omega

theorem length_rest_of_readExtension {rounds : Nat} {input : List UInt8} {sptr : Extension}
    (hread : readExtension readers rounds input = some (sptr, rest)) :
    rest.length ≤ input.length := by
  induction rounds generalizing input rest sptr with
  | zero => cases hread
  | succ rounds ih =>
      rw [readExtension] at hread
      obtain ⟨⟨pNextType, tail⟩, htype, hread⟩ := Option.bind_eq_some_iff.mp hread
      have hle := length_rest_of_read htype
      simp only at hread
      split_ifs at hread
      · obtain ⟨-, rfl⟩ := Prod.mk.inj (Option.some.inj hread)
        exact hle
      · obtain ⟨⟨sType, tail'⟩, hsType, hread⟩ := Option.bind_eq_some_iff.mp hread
        have hsTypeLe := length_rest_of_read hsType
        simp only at hread
        split_ifs at hread
        obtain ⟨⟨pNext, tail''⟩, hpNext, hread⟩ := Option.bind_eq_some_iff.mp hread
        have hpNextLe : tail''.length ≤ tail'.length := ih hpNext
        obtain ⟨⟨markings, left⟩, hmarkings, heq⟩ := Option.map_eq_some_iff.mp hread
        have hmarkingsLe : left.length ≤ tail''.length := length_rest_of_readMarkings hmarkings
        obtain ⟨-, rfl⟩ := Prod.mk.inj heq
        show left.length ≤ input.length
        omega
      · obtain ⟨left, hother, heq⟩ := Option.map_eq_some_iff.mp hread
        have hotherLe := readers.other_goesOn _ _ _ hother
        obtain ⟨-, rfl⟩ := Prod.mk.inj heq
        omega

/-! ### Handles and packets -/

theorem readHandle_bytes (handle : Handle) :
    readHandle (handle.bytes.flatten ++ rest) = some (handle, rest) := by
  have hindex : ∀ rest, WordStream.read 4 (encode 4 handle.index.toNat ++ rest) =
      some (handle.index.toNat, rest) := fun rest => read_encode handle.index.toNat_lt
  have hthread : ∀ rest, WordStream.read 1 ([handle.reqThread] ++ rest) =
      some (handle.reqThread.toNat, rest) := by
    intro rest
    simp [WordStream.read, take?, decode]
  have hpacket : ∀ rest, WordStream.read 4 (encode 4 handle.reqPacket.toNat ++ rest) =
      some (handle.reqPacket.toNat, rest) := fun rest => read_encode handle.reqPacket.toNat_lt
  have hflat : handle.bytes.flatten ++ rest = encode 4 handle.index.toNat ++
      ([handle.reqThread] ++ (encode 4 handle.reqPacket.toNat ++ rest)) := by
    simp [Handle.bytes]
  simp only [hflat, readHandle, hindex, hthread, hpacket, Option.bind_some, Option.map_some,
    UInt32.ofNat_toNat, UInt8.ofNat_toNat]

/-- A handle has nine bytes. -/
theorem readHandle_rest {handle : Handle} {input : List UInt8}
    (hread : readHandle input = some (handle, rest)) :
    ∃ front, front.length = 9 ∧ input = front ++ rest := by
  unfold readHandle at hread
  obtain ⟨⟨index, input'⟩, hindex, hread⟩ := Option.bind_eq_some_iff.mp hread
  obtain ⟨⟨reqThread, input''⟩, hthread, hread⟩ := Option.bind_eq_some_iff.mp hread
  obtain ⟨⟨reqPacket, tail⟩, hpacket, heq⟩ := Option.map_eq_some_iff.mp hread
  obtain ⟨-, rfl⟩ := Prod.mk.inj heq
  obtain ⟨first, hfirst, -, rfl⟩ := read_eq_some_iff.mp hindex
  obtain ⟨second, hsecond, -, rfl⟩ := read_eq_some_iff.mp hthread
  obtain ⟨third, hthird, -, rfl⟩ := read_eq_some_iff.mp hpacket
  refine ⟨first ++ (second ++ third), ?_, by simp⟩
  simp only [List.length_append]
  omega

theorem length_handleBytes (handle : Handle) : handle.bytes.flatten.length = 9 := by
  simp [Handle.bytes]

theorem length_rest_of_readHeader {type : PacketType} {input : List UInt8} {size : Nat}
    {sptr : Extension} (hread : readHeader readers type input = some (size, sptr, rest)) :
    rest.length ≤ input.length := by
  unfold readHeader at hread
  split_ifs at hread
  · unfold readVersion2Packet at hread
    obtain ⟨⟨size', tail⟩, hsize, hread⟩ := Option.bind_eq_some_iff.mp hread
    obtain ⟨⟨flags, tail'⟩, hflags, hread⟩ := Option.bind_eq_some_iff.mp hread
    have hsizeLe := length_rest_of_read hsize
    have hflagsLe := length_rest_of_read hflags
    simp only at hread
    split_ifs at hread
    · obtain ⟨⟨found, left⟩, hextension, heq⟩ := Option.map_eq_some_iff.mp hread
      have hextensionLe := length_rest_of_readExtension hextension
      simp only [Prod.mk.injEq] at heq
      obtain ⟨-, -, rfl⟩ := heq
      omega
    · simp only [Option.some.injEq, Prod.mk.injEq] at hread
      obtain ⟨-, -, rfl⟩ := hread
      omega
  · simp only [Option.some.injEq, Prod.mk.injEq] at hread
    obtain ⟨-, -, rfl⟩ := hread
    exact le_rfl

/-- A packet is two handles, a header and the rest. -/
theorem readUpdatePacket_eq_some_iff {packet : Frame} {update : OutputUpdatePacket} :
    readUpdatePacket readers packet = some update ↔
      ∃ (device object : Handle) (size : Nat) (sptr : Extension) (rest : List UInt8),
        18 ≤ packet.payload.length ∧
        readHandle packet.payload = some (device, packet.payload.drop 9) ∧
        readHandle (packet.payload.drop 9) = some (object, packet.payload.drop 18) ∧
        readHeader readers packet.type (packet.payload.drop 18) = some (size, sptr, rest) ∧
        update = ⟨device.index, object.index, 18, packet.payload.length - rest.length, size,
          sptr⟩ := by
  unfold readUpdatePacket
  constructor
  · intro hread
    obtain ⟨⟨device, input⟩, hdevice, hread⟩ := Option.bind_eq_some_iff.mp hread
    obtain ⟨⟨object, input'⟩, hobject, hread⟩ := Option.bind_eq_some_iff.mp hread
    obtain ⟨⟨size, sptr, rest⟩, hheader, rfl⟩ := Option.map_eq_some_iff.mp hread
    obtain ⟨first, hfirst, hpayload⟩ := readHandle_rest hdevice
    obtain ⟨second, hsecond, hinput⟩ := readHandle_rest hobject
    have hnine : packet.payload.drop 9 = input := by
      rw [hpayload, List.drop_left' hfirst]
    have heighteen : packet.payload.drop 18 = input' := by
      rw [show 18 = 9 + 9 from rfl, ← List.drop_drop, hnine, hinput, List.drop_left' hsecond]
    have hlength : packet.payload.length = 18 + input'.length := by
      rw [hpayload, hinput]
      simp only [List.length_append]
      omega
    rw [hnine, heighteen]
    refine ⟨device, object, size, sptr, rest, by omega, hdevice, hobject, hheader, ?_⟩
    rw [show packet.payload.length - input'.length = 18 by omega]
  · rintro ⟨device, object, size, sptr, rest, hlong, hdevice, hobject, hheader, rfl⟩
    simp only [hdevice, hobject, hheader, Option.bind_some, Option.map_some, List.length_drop]
    rw [show packet.payload.length - (packet.payload.length - 18) = 18 by omega]

end

/-- The packets of a writer behind calls. -/
theorem writes_exec {chunkSize : Nat} {draft : Draft} {p q : PacketWriter} {calls : List Call}
    (hwrites : Writes chunkSize draft p) (hexec : Transition.exec step p calls = some q) :
    Writes chunkSize (calls.foldl Draft.apply draft) q := by
  induction calls generalizing draft p with
  | nil =>
      cases hexec
      exact hwrites
  | cons call calls ih =>
      obtain ⟨next, hstep, hrest⟩ := Transition.exec_cons_eq_some_iff.mp hexec
      exact ih (step_refines hwrites hstep) hrest

/-- The calls that write one packet, piece by piece. -/
def packetCalls (type : PacketType) (pieces : List (List UInt8)) : List Call :=
  .beginPacket type :: (pieces.map Call.write ++ [.endPacket])

theorem foldl_write (draft : Draft) (frame : Frame) (pieces : List (List UInt8)) :
    (pieces.map Call.write).foldl Draft.apply { draft with current := some frame } =
      { draft with
        current := some { frame with payload := frame.payload ++ pieces.flatten } } := by
  induction pieces generalizing frame with
  | nil => simp
  | cons piece pieces ih =>
      simp only [List.map_cons, List.foldl_cons, Draft.apply, Option.map_some]
      rw [ih]
      simp

/-- They add this packet behind those that were there. -/
theorem foldl_packetCalls (draft : Draft) (type : PacketType) (pieces : List (List UInt8)) :
    (packetCalls type pieces).foldl Draft.apply draft =
      ⟨draft.close.finished ++ [⟨type, pieces.flatten⟩], none⟩ := by
  rw [packetCalls, List.foldl_cons, List.foldl_append]
  simp only [Draft.apply]
  rw [foldl_write]
  show Draft.close _ = _
  simp [Draft.close]

end UpdatePackets
end Lavatube
