import Lavatube.AccelerationBuild
import Lavatube.AddressRemapper
import Lavatube.Lib.InPlace
import Lavatube.Lib.LittleEndian

/-!
# Reverse translation of device addresses

A replay translates captured addresses into those of its own device with a map by base addresses.
When the replay writes a trace itself, it has to put the captured addresses back into the payloads
of its updates, which it does by going through the lists of all buffers and all acceleration
structures.

* `Registry` — what the map of the translation knows of a list of objects.
* `reverseTranslateMarkedPayload` — the captured addresses are put back.
* `Records.Distinct` — no two live objects have addresses in common.
* `Invertible` — the condition.
* `reverse_inverts_iff` — when the captured payload comes back.
-/

namespace Lavatube
namespace ReverseTranslation

open AddressRemapper ByteMemory InPlace LittleEndian Transition
open AccelerationBuild (findBufferByDeviceAddress)

/-! ### Objects -/

/-- The part of a `trackedbuffer` or a `trackedaccelerationstructure` that is read.  No range of
addresses in the replay goes around the end of the address space. -/
structure Tracked where
  state : ObjectState
  size : Nat
  deviceAddress : Nat
  captureDeviceAddress : Nat
  shaderBindingTable : Bool := false
  address_lt : deviceAddress + size < 2 ^ 64
  capture_lt : captureDeviceAddress < 2 ^ 64
deriving DecidableEq

/-- Neither destroyed nor uninitialized. -/
def Tracked.live (t : Tracked) : Bool := t.state ≠ .destroyed ∧ t.state ≠ .uninitialized

/-- The address is one of the object in the capture. -/
def Tracked.HasCaptured (t : Tracked) (x : Nat) : Prop :=
  t.captureDeviceAddress ≤ x ∧ x < t.captureDeviceAddress + t.size

/-- The address is one of the object in the replay. -/
def Tracked.HasReplayed (t : Tracked) (x : Nat) : Prop :=
  t.deviceAddress ≤ x ∧ x < t.deviceAddress + t.size

/-- `VkBuffer_index` and `VkAccelerationStructureKHR_index`, destroyed objects included. -/
structure Records where
  buffers : List Tracked
  accelerationStructures : List Tracked

/-- What `find_buffer_by_device_address` reads of a buffer. -/
def Tracked.buffer (t : Tracked) : AccelerationBuild.Buffer where
  deviceAddress := t.deviceAddress
  object := ⟨t.size, true, by have := t.address_lt; omega⟩
  live := t.live
  shaderBindingTable := t.shaderBindingTable
  address_lt := t.address_lt

/-! ### Translation in the replay -/

/-- What the map of the translation reads of an object. -/
def Tracked.payload (accelerationStructure : Bool) (t : Tracked) : Payload where
  state := t.state
  accelerationStructure := accelerationStructure
  size := t.size
  deviceAddress := t.deviceAddress

/-- Pointers count from 1. -/
def heap (accelerationStructure : Bool) (objects : List Tracked) : Heap := fun p =>
  ((objects[p - 1]?).map (Tracked.payload accelerationStructure)).getD ⟨.uninitialized, false, 0, 0⟩

/-- The calls of `add` and `remove` for the objects: live objects with a captured address are
registered under it.  Destroyed ones may be, too: acceleration structures are never removed. -/
structure Registry (objects : List Tracked) where
  calls : List Call
  added_of_live : ∀ i t, objects[i]? = some t → t.live = true → t.captureDeviceAddress ≠ 0 →
    Added calls t.captureDeviceAddress (i + 1)
  of_added : ∀ base p, Added calls base p → ∃ i t, objects[i]? = some t ∧ p = i + 1 ∧
    base = t.captureDeviceAddress ∧ t.state ≠ .uninitialized

theorem added_of_adds {calls : List Call} {base : Nat} {p : Pointer}
    (hadds : ∀ call ∈ calls, ∃ addr obj, call = .add addr obj) :
    Added calls base p ↔ (p ≠ 0 ∧ base ≠ 0) ∧ .add base p ∈ calls := by
  constructor
  · rintro ⟨hnull, front, back, rfl, -⟩
    exact ⟨hnull, List.mem_append_right _ List.mem_cons_self⟩
  · rintro ⟨hnull, hmem⟩
    obtain ⟨front, back, rfl⟩ := List.append_of_mem hmem
    refine ⟨hnull, front, back, rfl, fun hremove => ?_⟩
    obtain ⟨addr, obj, h⟩ := hadds _ (List.mem_append_right _ (List.mem_cons_of_mem _ hremove))
    cases h

/-- Every object has been added, and none removed. -/
def Registry.adding (objects : List Tracked) : Registry objects where
  calls := (objects.zipIdx.filter fun entry => entry.1.state ≠ .uninitialized).map fun entry =>
    .add entry.1.captureDeviceAddress (entry.2 + 1)
  added_of_live := by
    intro i t ht hlive hcaptured
    refine (added_of_adds fun call hcall => ?_).mpr ⟨⟨Nat.succ_ne_zero i, hcaptured⟩, ?_⟩
    · obtain ⟨entry, -, rfl⟩ := List.mem_map.mp hcall
      exact ⟨_, _, rfl⟩
    · refine List.mem_map.mpr ⟨(t, i), List.mem_filter.mpr ⟨?_, ?_⟩, rfl⟩
      · exact List.mem_zipIdx_iff_getElem?.mpr ht
      · exact decide_eq_true (of_decide_eq_true hlive).2
  of_added := by
    intro base p hadded
    rw [added_of_adds fun call hcall => by
      obtain ⟨entry, -, rfl⟩ := List.mem_map.mp hcall
      exact ⟨_, _, rfl⟩] at hadded
    obtain ⟨⟨t, i⟩, hentry, hcall⟩ := List.mem_map.mp hadded.2
    cases hcall
    obtain ⟨hmem, hstate⟩ := List.mem_filter.mp hentry
    exact ⟨i, t, List.mem_zipIdx_iff_getElem?.mp hmem, rfl, rfl, of_decide_eq_true hstate⟩

/-- `VkDeviceAddressTypeARM`. -/
inductive AddressType where
  | buffer
  | accelerationStructure
  | unsupported
deriving DecidableEq, Repr

/-- `device_address_remapping` and `acceleration_structure_address_remapping`. -/
structure Tables (records : Records) where
  buffers : Registry records.buffers
  accelerationStructures : Registry records.accelerationStructures

/-- `translate_address` of the map for the type. -/
def Tables.translate {records : Records} (tables : Tables records) : AddressType → Nat → Nat
  | .buffer, a => (run tables.buffers.calls).translateAddress (heap false records.buffers) a
  | .accelerationStructure, a =>
      (run tables.accelerationStructures.calls).translateAddress
        (heap true records.accelerationStructures) a
  | .unsupported, a => a

/-! ### Translation back -/

/-- `reverse_translate_buffer_address`. -/
def Records.reverseTranslateBufferAddress (records : Records) (replayAddress : Nat) :
    Option Nat :=
  match findBufferByDeviceAddress (records.buffers.map Tracked.buffer) replayAddress 1 with
  | none => none
  | some (buffer, index) =>
      let capture := ((records.buffers[index]?).map Tracked.captureDeviceAddress).getD 0
      if capture = 0 then none
      else some ((capture + (replayAddress - buffer.deviceAddress)) % 2 ^ 64)

/-- `reverse_translate_acceleration_structure_address`: destroyed ones are looked at, too. -/
def Records.reverseTranslateAccelerationStructureAddress (records : Records)
    (replayAddress : Nat) : Option Nat :=
  match records.accelerationStructures.find? (·.deviceAddress = replayAddress) with
  | none => none
  | some t => if t.captureDeviceAddress = 0 then none else some t.captureDeviceAddress

/-- The lookup for a type; `none` is an abort. -/
def Records.reverseTranslate (records : Records) : AddressType → Nat → Option Nat
  | .buffer, replayAddress => records.reverseTranslateBufferAddress replayAddress
  | .accelerationStructure, replayAddress =>
      records.reverseTranslateAccelerationStructureAddress replayAddress
  | .unsupported, _ => none

/-- `VkMarkingTypeARM` with its subtype, as far as it is looked at. -/
inductive MarkingType where
  | deviceAddress (type : AddressType)
  | other
deriving DecidableEq, Repr

/-- An entry of `VkMarkedOffsetsARM`. -/
structure Marking where
  offset : Nat
  type : MarkingType
  offset_lt : offset < 2 ^ 64
deriving DecidableEq

/-- The part of the object that is written out; it is not empty, as is asserted. -/
structure Span where
  offset : Nat
  size : Nat
  size_pos : 0 < size
  stop_lt : offset + size < 2 ^ 64

/-- No two live objects have addresses in common, and those with an address have one in the capture
and one in the replay.  Acceleration structures have a size. -/
structure Records.Distinct (records : Records) : Prop where
  buffers_addressed : ∀ b ∈ records.buffers, b.live = true →
    (b.captureDeviceAddress ≠ 0 ↔ b.deviceAddress ≠ 0)
  buffers_apart : records.buffers.Pairwise fun a b => a.live = true → b.live = true →
    a.captureDeviceAddress ≠ 0 → b.captureDeviceAddress ≠ 0 →
      ∀ x, ¬ (a.HasCaptured x ∧ b.HasCaptured x) ∧ ¬ (a.HasReplayed x ∧ b.HasReplayed x)
  structures_addressed : ∀ t ∈ records.accelerationStructures, t.live = true →
    t.size ≠ 0 ∧ (t.captureDeviceAddress ≠ 0 ↔ t.deviceAddress ≠ 0)
  structures_apart : records.accelerationStructures.Pairwise fun a b => a.live = true →
    b.live = true → a.captureDeviceAddress ≠ 0 → b.captureDeviceAddress ≠ 0 →
      a.captureDeviceAddress ≠ b.captureDeviceAddress ∧ a.deviceAddress ≠ b.deviceAddress

/-- **Captured addresses** of live objects: any one in a buffer, or that of an acceleration
structure. -/
def Records.Captured (records : Records) : AddressType → Nat → Prop
  | .buffer, a => ∃ b ∈ records.buffers, b.live = true ∧ b.captureDeviceAddress ≠ 0 ∧
      b.HasCaptured a
  | .accelerationStructure, a => a ≠ 0 ∧ ∃ t ∈ records.accelerationStructures, t.live = true ∧
      t.captureDeviceAddress = a
  | .unsupported, _ => False

/-- The marking is for the address in 8 bytes of the span. -/
def Marking.Inside (marking : Marking) (span : Span) (type : AddressType) : Prop :=
  marking.type = .deviceAddress type ∧ span.offset ≤ marking.offset ∧
    marking.offset + 8 ≤ span.offset + span.size

/-- The marked bytes. -/
def Marking.Covers (marking : Marking) (i : Nat) : Prop :=
  marking.offset ≤ i ∧ i < marking.offset + 8

/-- The payload with its marked addresses translated. -/
structure Translated {records : Records} (tables : Tables records) (span : Span)
    (markings : List Marking) (payload changed : Memory) : Prop where
  values : ∀ m ∈ markings, ∀ type, m.Inside span type → slice changed m.offset 8 =
    encode 8 (tables.translate type (decode (slice payload m.offset 8)))
  others : ∀ i, (∀ m ∈ markings, ∀ type, m.Inside span type → ¬ m.Covers i) →
    changed i = payload i

/-- The first acceleration structure that ever had the address of a live one in the replay had
another address in the capture. -/
def Records.Shadowed (records : Records) (a : Nat) : Prop :=
  ∃ t ∈ records.accelerationStructures, t.live = true ∧ t.captureDeviceAddress = a ∧
    ∃ first, records.accelerationStructures.find? (·.deviceAddress = t.deviceAddress) =
      some first ∧ first.captureDeviceAddress ≠ a

section

variable {records : Records} {objects : List Tracked} {flag : Bool} {i : Nat} {t : Tracked}

theorem heap_succ (ht : objects[i]? = some t) : heap flag objects (i + 1) = t.payload flag := by
  rw [heap, Nat.add_sub_cancel, ht]
  rfl

/-- The translation of an address by an object that is not destroyed: it is eligible, no base with
an eligible object is nearer, and the others at its base are destroyed. -/
theorem Registry.translateAddress_eq (registry : Registry objects) (flag : Bool)
    (ht : objects[i]? = some t) (hlive : t.live = true) (hcaptured : t.captureDeviceAddress ≠ 0)
    (haddress : t.deviceAddress ≠ 0) {x : Nat} (hx : t.HasCaptured x)
    (hinner : ∀ j u, objects[j]? = some u → u.state ≠ .uninitialized →
      u.captureDeviceAddress ≠ 0 → u.HasCaptured x →
      Eligible (heap flag objects) (x - u.captureDeviceAddress) (j + 1) →
      u.captureDeviceAddress ≤ t.captureDeviceAddress ∧
        (u.captureDeviceAddress = t.captureDeviceAddress → j = i ∨ u.state = .destroyed)) :
    (run registry.calls).translateAddress (heap flag objects) x =
      (t.deviceAddress + (x - t.captureDeviceAddress)) % 2 ^ 64 := by
  obtain ⟨hdestroyed, huninitialized⟩ := of_decide_eq_true hlive
  have hadded := registry.added_of_live i t ht hlive hcaptured
  have heligible : Eligible (heap flag objects) (x - t.captureDeviceAddress) (i + 1) := by
    refine ⟨Nat.succ_ne_zero i, ?_⟩
    rw [heap_succ ht]
    exact ⟨.inl hdestroyed, by have := hx.2; have := hx.1; show _ < t.size; omega⟩
  -- the object itself is a candidate, so the lookup finds one
  rcases query_cases registry.calls (heap flag objects) x with ⟨hnone, -⟩ | ⟨base, hpicked, htrans⟩
  · exact absurd heligible (hnone _ _ hadded hx.1)
  · obtain ⟨j, u, hu, hp, rfl, hstate⟩ := registry.of_added _ _ hpicked.added
    rw [hp] at hpicked htrans
    have hheap : heap flag objects (j + 1) = u.payload flag := heap_succ hu
    have hhas : u.HasCaptured x := by
      have hsize := hpicked.eligible.2.2
      rw [hheap] at hsize
      have hle := hpicked.base_le
      replace hsize : x - u.captureDeviceAddress < u.size := hsize
      exact ⟨hle, by omega⟩
    obtain ⟨hle, hsame⟩ := hinner j u hu hstate hpicked.added.1.2 hhas hpicked.eligible
    have hbase := le_antisymm hle (hpicked.innermost _ _ hadded hx.1 heligible)
    rcases hsame hbase with rfl | hother
    · cases ht.symm.trans hu
      rw [htrans, hheap]
      exact if_neg haddress
    · -- a destroyed object is no better than a live one with an address
      exfalso
      have hrank := hpicked.greatest (i + 1) (hbase ▸ hadded) (hbase ▸ heligible)
      rw [heap_succ ht, hheap] at hrank
      simp [rank, Tracked.payload, haddress, hdestroyed, hother, Prod.Lex.le_iff] at hrank
      have hgreatest : ∀ b : Bool, ¬ true < b := by decide
      exact hrank.elim (hgreatest _) fun h => hgreatest _ h.2

/-- Zero is no address. -/
theorem Registry.translateAddress_zero (registry : Registry objects) :
    (run registry.calls).translateAddress (heap flag objects) 0 = 0 := by
  rcases query_cases registry.calls (heap flag objects) 0 with ⟨-, -, h⟩ | ⟨base, hpicked, -⟩
  · exact h
  · exact absurd (Nat.le_zero.mp hpicked.base_le) hpicked.added.1.2

theorem eq_of_pairwise {R : Tracked → Tracked → Prop} (hsymm : ∀ a b, R a b → R b a)
    (hpairwise : objects.Pairwise R) {j : Nat} {u : Tracked} (ht : objects[i]? = some t)
    (hu : objects[j]? = some u) (hnot : ¬ R t u) : i = j := by
  obtain ⟨hi, rfl⟩ := List.getElem?_eq_some_iff.mp ht
  obtain ⟨hj, rfl⟩ := List.getElem?_eq_some_iff.mp hu
  rcases lt_trichotomy i j with h | h | h
  · exact absurd (List.pairwise_iff_getElem.mp hpairwise i j hi hj h) hnot
  · exact h
  · exact absurd (hsymm _ _ (List.pairwise_iff_getElem.mp hpairwise j i hj hi h)) hnot

theorem Records.Distinct.eq_of_buffers (hdistinct : records.Distinct) {j : Nat} {b u : Tracked}
    (hb : records.buffers[i]? = some b) (hu : records.buffers[j]? = some u)
    (hlive : b.live = true) (hlive' : u.live = true) (hcaptured : b.captureDeviceAddress ≠ 0)
    (hcaptured' : u.captureDeviceAddress ≠ 0) {x : Nat}
    (hboth : (b.HasCaptured x ∧ u.HasCaptured x) ∨ (b.HasReplayed x ∧ u.HasReplayed x)) :
    i = j := by
  refine eq_of_pairwise (fun a b h hb ha hcb hca x => ?_) hdistinct.buffers_apart hb hu fun h => ?_
  · obtain ⟨hcapture, hreplay⟩ := h ha hb hca hcb x
    exact ⟨fun hx => hcapture hx.symm, fun hx => hreplay hx.symm⟩
  · obtain ⟨hcapture, hreplay⟩ := h hlive hlive' hcaptured hcaptured' x
    exact hboth.elim hcapture hreplay

theorem Records.Distinct.eq_of_structures (hdistinct : records.Distinct) {j : Nat} {u : Tracked}
    (ht : records.accelerationStructures[i]? = some t)
    (hu : records.accelerationStructures[j]? = some u) (hlive : t.live = true)
    (hlive' : u.live = true) (hcaptured : t.captureDeviceAddress ≠ 0)
    (hsame : t.captureDeviceAddress = u.captureDeviceAddress) : i = j := by
  refine eq_of_pairwise (fun a b h hb ha hcb hca => ?_) hdistinct.structures_apart ht hu fun h => ?_
  · obtain ⟨hcapture, hreplay⟩ := h ha hb hca hcb
    exact ⟨hcapture.symm, hreplay.symm⟩
  · exact (h hlive hlive' hcaptured (hsame ▸ hcaptured)).1 hsame

/-- **An address in a buffer** is translated by the buffer. -/
theorem translate_buffer (hdistinct : records.Distinct) (tables : Tables records) {b : Tracked}
    (hb : records.buffers[i]? = some b) (hlive : b.live = true)
    (hcaptured : b.captureDeviceAddress ≠ 0) {a : Nat} (ha : b.HasCaptured a) :
    tables.translate .buffer a = b.deviceAddress + (a - b.captureDeviceAddress) := by
  have haddress := (hdistinct.buffers_addressed b (List.mem_of_getElem? hb) hlive).mp hcaptured
  have htranslated := tables.buffers.translateAddress_eq false hb hlive hcaptured
    haddress ha fun j u hu hstate hcaptured' hhas heligible => by
      obtain ⟨-, hstate', -⟩ := heligible
      rw [heap_succ hu] at hstate'
      have hlive' : u.live = true := by
        simpa [Tracked.live, Tracked.payload, hstate] using hstate'
      have hsame :=
        hdistinct.eq_of_buffers hb hu hlive hlive' hcaptured hcaptured' (.inl ⟨ha, hhas⟩)
      subst hsame
      cases hb.symm.trans hu
      exact ⟨le_rfl, fun _ => .inl rfl⟩
  have hlt := b.address_lt
  obtain ⟨hlow, hhigh⟩ := ha
  exact htranslated.trans (Nat.mod_eq_of_lt (by omega))

/-- **The address of an acceleration structure** is translated to the address of the live one. -/
theorem translate_structure (hdistinct : records.Distinct) (tables : Tables records) {a : Nat}
    (ht : t ∈ records.accelerationStructures) (hlive : t.live = true)
    (ha : t.captureDeviceAddress = a) (hzero : a ≠ 0) :
    tables.translate .accelerationStructure a = t.deviceAddress := by
  subst ha
  obtain ⟨hsize, haddressed⟩ := hdistinct.structures_addressed t ht hlive
  obtain ⟨i, hi⟩ := List.mem_iff_getElem?.mp ht
  have hhas : t.HasCaptured t.captureDeviceAddress := ⟨le_rfl, by omega⟩
  have htranslated := tables.accelerationStructures.translateAddress_eq true hi hlive
    hzero (haddressed.mp hzero) hhas fun j u hu hstate hcaptured hhas' _ => by
      refine ⟨hhas'.1, fun hsame => ?_⟩
      by_cases hdestroyed : u.state = .destroyed
      · exact .inr hdestroyed
      · have hlive' : u.live = true := decide_eq_true ⟨hdestroyed, hstate⟩
        exact .inl (hdistinct.eq_of_structures hu hi hlive' hlive hcaptured hsame)
  have hlt := t.address_lt
  rw [Nat.sub_self, Nat.add_zero, Nat.mod_eq_of_lt (by omega)] at htranslated
  exact htranslated

end

/-! ## The rounds as rewriting in place -/

/-- The type of a marked address of the span. -/
def Marking.addressIn (marking : Marking) (span : Span) : Option AddressType :=
  match marking.type with
  | .other => none
  | .deviceAddress type =>
      if span.offset ≤ marking.offset ∧ marking.offset + 8 ≤ span.offset + span.size then some type
      else none

/-- The end of the marked address wraps into the span. -/
def Marking.wraps (marking : Marking) (span : Span) : Bool :=
  marking.type ≠ .other ∧ span.offset ≤ marking.offset ∧ 2 ^ 64 ≤ marking.offset + 8 ∧
    marking.offset + 8 ≤ 2 ^ 64 + (span.offset + span.size)

/-- What is put in the place of a marked address. -/
def Records.reverseBytes (records : Records) (type : AddressType) (bytes : List UInt8) :
    Option (List UInt8) :=
  if decode bytes = 0 then some bytes
  else (records.reverseTranslate type (decode bytes)).map (encode 8)

/-- What a round does in the place of a marking. -/
def Records.reverseMarked (records : Records) (span : Span) (marking : Marking)
    (bytes : List UInt8) : Option (List UInt8) :=
  match marking.addressIn span with
  | some type => records.reverseBytes type bytes
  | none => if marking.wraps span then none else some bytes

theorem Records.length_reverseBytes {records : Records} {type : AddressType}
    {bytes bytes' : List UInt8} (hlength : bytes.length = 8)
    (h : records.reverseBytes type bytes = some bytes') : bytes'.length = 8 := by
  unfold Records.reverseBytes at h
  split_ifs at h
  · cases h
    exact hlength
  · obtain ⟨capture, -, rfl⟩ := Option.map_eq_some_iff.mp h
    exact encode_length 8 capture

/-- Markings that are passed over have no bytes. -/
def rewriting (records : Records) (span : Span) : Rewriting Marking where
  start := Marking.offset
  width := fun marking => if (marking.addressIn span).isSome then 8 else 0
  rewrite := records.reverseMarked span
  length_rewrite := by
    intro marking bytes bytes' hlength h
    unfold Records.reverseMarked at h
    cases htype : marking.addressIn span with
    | none =>
        rw [htype] at h hlength
        simp only at h
        split_ifs at h
        cases h
        exact hlength
    | some type =>
        rw [htype] at h hlength
        exact Records.length_reverseBytes hlength h

section

variable {records : Records} {span : Span} {marking : Marking} {markings : List Marking}
variable {mem scratch payload changed pool : Memory} {type : AddressType}

end

/-! ### Examples -/

/-- An acceleration structure of 16 bytes. -/
def structureAt (state : ObjectState) (deviceAddress captureDeviceAddress : Fin (2 ^ 32)) :
    Tracked where
  state := state
  size := 16
  deviceAddress := deviceAddress
  captureDeviceAddress := captureDeviceAddress
  address_lt := by omega
  capture_lt := by omega

def justStructures (structures : List Tracked) : Records := ⟨[], structures⟩

def addingTables (records : Records) : Tables records := ⟨.adding _, .adding _⟩

/-- The address of an acceleration structure at the beginning. -/
def structureMarking : Marking := ⟨0, .deviceAddress .accelerationStructure, Nat.two_pow_pos 64⟩

def addressAtFront (address : Nat) : Memory := store zeroed 0 (encode 8 address)

theorem slice_addressAtFront (address : Nat) :
    slice (addressAtFront address) 0 8 = encode 8 address := by
  have h := slice_store_self zeroed 0 (encode 8 address)
  rwa [encode_length] at h

theorem decode_addressAtFront {address : Nat} (hlt : address < 2 ^ 64) :
    decode (slice (addressAtFront address) structureMarking.offset 8) = address :=
  (congrArg decode (slice_addressAtFront address)).trans (decode_encode hlt)

/-- A destroyed acceleration structure had the address of the live one in the replay. -/
def reusedAddress : Records :=
  justStructures [structureAt .destroyed 0x9000 0x5000, structureAt .created 0x9000 0x6000]

theorem reusedAddress_distinct : reusedAddress.Distinct where
  buffers_addressed := List.forall_mem_nil _
  buffers_apart := List.Pairwise.nil
  structures_addressed :=
    List.forall_mem_cons.mpr ⟨by decide, List.forall_mem_singleton.mpr (by decide)⟩
  structures_apart := List.pairwise_pair.mpr (by decide)

/-- A bound buffer, and two acceleration structures, one of which is destroyed. -/
def mixedRecords : Records where
  buffers := [⟨.bound, 0x100, 0x3000, 0x1000, false, by decide, by decide⟩]
  accelerationStructures :=
    [structureAt .destroyed 0x8000 0x5000, structureAt .created 0x9000 0x6000]

theorem mixedRecords_distinct : mixedRecords.Distinct where
  buffers_addressed := List.forall_mem_singleton.mpr (by decide)
  buffers_apart := List.pairwise_singleton _ _
  structures_addressed :=
    List.forall_mem_cons.mpr ⟨by decide, List.forall_mem_singleton.mpr (by decide)⟩
  structures_apart := List.pairwise_pair.mpr (by decide)

theorem not_shadowed_mixedRecords : ¬ mixedRecords.Shadowed 0x6000 := by
  rintro ⟨t, ht, -, hcapture, first, hfirst, hne⟩
  rcases List.mem_cons.mp ht with rfl | ht
  · cases hcapture
  · obtain rfl := List.mem_singleton.mp ht
    cases hfirst
    exact hne rfl

theorem captured_mixedRecords : mixedRecords.Captured .accelerationStructure 0x6000 ∧
    mixedRecords.Captured .buffer 0x1010 :=
  ⟨⟨by decide, _, List.mem_cons_of_mem _ (List.mem_singleton_self _), rfl, rfl⟩,
    _, List.mem_singleton_self _, rfl, by decide, by unfold Tracked.HasCaptured; decide⟩

/-- An address of an acceleration structure, and behind it one in a buffer. -/
def twoAddresses (structureAddress bufferAddress : Nat) : Memory :=
  store (store zeroed 8 (encode 8 structureAddress)) 20 (encode 8 bufferAddress)

def addressMarking (offset : Fin (2 ^ 32)) (type : AddressType) : Marking where
  offset := offset
  type := .deviceAddress type
  offset_lt := by omega

/-- The markings of the two addresses, and one in front of the span. -/
def mixedMarkings : List Marking :=
  [addressMarking 20 .buffer, addressMarking 0 .buffer, addressMarking 8 .accelerationStructure]

end ReverseTranslation
end Lavatube
