import Lavatube.Lib.Transition
import Mathlib.Logic.Function.Basic

/-!
# Where the bytes of a buffer come from

`host_write_regions` remembers for every byte of an object which packet has written it.
The memory flag tracker of the SPIR-V simulator splits the written ranges into fragments;
next to it there is a map from fragments to sources, whose object offsets are relative to
address zero, so that they stay right when a fragment is split.

The tracker is not part of this repository and stands here as a parameter.

* `MemoryFlagTracker.Lawful` — what the code relies on.
* `registerSource`, `copySources`, `tryGetReference` — the three operations.
* `Provenance`, `reference` — the map that the regions stand for.
* `host_write_regions_last_writer` — the operations keep to that map.
-/

namespace Lavatube
namespace HostWriteRegions

open Transition

/-! ## The tracker -/

/-- A span that `queryRangeDetailed` returns. -/
structure FragmentSpan where
  start : Nat
  stop : Nat
  fragmentId : Nat
deriving DecidableEq, Repr

/-- The functions of `MemoryFlagTracker` that are used; `queryDetailed` returns the address
and the fragment. -/
structure MemoryFlagTracker where
  State : Type
  empty : State
  write : State → Nat → Nat → State
  queryDetailed : State → Nat → Option (Nat × Nat)
  queryRangeDetailed : State → Nat → Nat → List FragmentSpan

/-- A write gives its range a fragment that no byte is in, and leaves the other bytes in
theirs; a query returns the fragments of its range in order. -/
structure MemoryFlagTracker.Lawful (tracker : MemoryFlagTracker)
    (fragmentAt : tracker.State → Nat → Option Nat) : Prop where
  empty_at : ∀ b, fragmentAt tracker.empty b = none
  write : ∀ s address size, 0 < size → ∃ id, (∀ b, fragmentAt s b ≠ some id) ∧
    tracker.queryDetailed (tracker.write s address size) address = some (address, id) ∧
    ∀ b, fragmentAt (tracker.write s address size) b =
      if address ≤ b ∧ b < address + size then some id else fragmentAt s b
  query_at : ∀ s address size, ∀ span ∈ tracker.queryRangeDetailed s address size,
    ∀ b, span.start ≤ b → b < span.stop → fragmentAt s b = some span.fragmentId
  query_sorted : ∀ s address size,
    (tracker.queryRangeDetailed s address size).Pairwise fun x y => x.stop ≤ y.start
  query_nonempty : ∀ s address size, ∀ span ∈ tracker.queryRangeDetailed s address size,
    span.start < span.stop
  query_covers : ∀ s address size b id, address ≤ b → b < address + size →
    fragmentAt s b = some id → ∃ span ∈ tracker.queryRangeDetailed s address size,
      span.start ≤ b ∧ b < span.stop

/-! ## The regions -/

/-- `change_source`. -/
structure ChangeSource where
  packet : UInt32
  frame : UInt32
  thread : UInt8
  packetType : UInt8
  callId : UInt16
deriving DecidableEq, Repr

/-- `change_source::self_test`. -/
def ChangeSource.selfTest (source : ChangeSource) : Bool :=
  source.packet ≠ 0xffffffff ∧ source.thread ≠ 0xff ∧
    (source.packetType = 2 → source.callId ≠ 0xffff) ∧ source.frame ≠ 0xffffffff

/-- `host_write_reference`. -/
structure HostWriteReference where
  source : ChangeSource
  stageIndex : UInt32
  /-- An `int64_t`. -/
  objectOffset : BitVec 64
deriving DecidableEq, Repr

/-- `source_span`. -/
structure SourceSpan where
  start : Nat
  stop : Nat
  reference : HostWriteReference
deriving DecidableEq, Repr

/-- `host_write_regions`. -/
structure Regions (tracker : MemoryFlagTracker) where
  tracker : tracker.State
  fragmentSources : Nat → Option HostWriteReference

def Regions.new (tracker : MemoryFlagTracker) : Regions tracker := ⟨tracker.empty, fun _ => none⟩

/-- `same_source`; the packet type is not compared. -/
def sameSource (a b : ChangeSource) : Bool :=
  a.packet = b.packet ∧ a.frame = b.frame ∧ a.thread = b.thread ∧ a.callId = b.callId

/-- `same_reference`. -/
def sameReference (a b : HostWriteReference) : Bool :=
  sameSource a.source b.source ∧ a.stageIndex = b.stageIndex

/-- `contiguous_reference`; every reference has a source object. -/
def contiguousReference (previous : SourceSpan) (nextStart : Nat) (next : HostWriteReference) :
    Bool :=
  sameReference previous.reference next ∧
    previous.reference.objectOffset + BitVec.ofNat 64 (previous.stop - previous.start) =
      next.objectOffset ∧
    previous.stop = nextStart

/-- `checked_end`. -/
def checkedEnd (address size : Nat) : Option Nat :=
  let stop := (address + size) % 2 ^ 64
  if stop ≥ address then some stop else none

/-- The end of a round of `collect_spans_unlocked`: the last span is made longer, or there is
another one. -/
def pushSpan (out : List SourceSpan) (start stop : Nat) (reference : HostWriteReference) :
    List SourceSpan :=
  match out.getLast? with
  | none => out ++ [⟨start, stop, reference⟩]
  | some back =>
      if contiguousReference back start reference then
        out.dropLast ++ [{ back with stop := stop }]
      else
        out ++ [⟨start, stop, reference⟩]

/-- The loop of `collect_spans_unlocked`, with the returned flag. -/
def collectLoop (sources : Nat → Option HostWriteReference) (address stop : Nat)
    (requireFullCoverage : Bool) :
    List FragmentSpan → Nat → List SourceSpan → Bool × List SourceSpan
  | [], pos, out => (if requireFullCoverage then pos = stop else true, out)
  | span :: rest, pos, out =>
      if requireFullCoverage ∧ span.start > pos then (false, out)
      else
        let start := max span.start (if requireFullCoverage then pos else address)
        let spanEnd := min span.stop stop
        if start ≥ spanEnd then
          collectLoop sources address stop requireFullCoverage rest pos out
        else
          match sources span.fragmentId with
          | none =>
              if requireFullCoverage then (false, out)
              else collectLoop sources address stop requireFullCoverage rest pos out
          | some reference =>
              let reference :=
                { reference with objectOffset := reference.objectOffset + BitVec.ofNat 64 start }
              let out := pushSpan out start spanEnd reference
              if requireFullCoverage then
                if spanEnd = stop then (true, out)
                else collectLoop sources address stop requireFullCoverage rest spanEnd out
              else
                collectLoop sources address stop requireFullCoverage rest pos out

section

variable {tracker : MemoryFlagTracker}

/-- `collect_spans_unlocked`; `none` is a failed assertion. -/
def collectSpans (regions : Regions tracker) (address size : Nat) (requireFullCoverage : Bool) :
    Option (Bool × List SourceSpan) :=
  if size = 0 then some (true, [])
  else
    match checkedEnd address size with
    | none => none
    | some stop =>
        some (collectLoop regions.fragmentSources address stop requireFullCoverage
          (tracker.queryRangeDetailed regions.tracker address size) address [])

/-- `register_source_unlocked`. -/
def registerSourceUnlocked (regions : Regions tracker) (address size : Nat)
    (reference : HostWriteReference) : Option (Regions tracker) :=
  if size = 0 then some regions
  else
    let written := tracker.write regions.tracker address size
    match tracker.queryDetailed written address with
    | none => none
    | some (found, fragmentId) =>
        if found = address then
          some
            { tracker := written
              fragmentSources := Function.update regions.fragmentSources fragmentId
                (some { reference with
                  objectOffset := reference.objectOffset - BitVec.ofNat 64 address }) }
        else
          none

/-- The arguments of `register_source` that it uses. -/
structure Registration where
  address : UInt64
  size : UInt64
  source : ChangeSource
  elements : UInt32 := 1
  stride : UInt32 := 0
  stageIndex : UInt32 := 0xfffffffe
  objectOffset : UInt64 := 0xffffffffffffffff
deriving DecidableEq, Repr

/-- The object offset that `register_source` works with. -/
def Registration.offset (r : Registration) : Nat :=
  if r.objectOffset.toNat = 2 ^ 64 - 1 then r.address.toNat else r.objectOffset.toNat

def Registration.reference (r : Registration) : HostWriteReference :=
  ⟨r.source, r.stageIndex, BitVec.ofNat 64 r.offset⟩

/-- The loop of `register_source` over the elements, from the `i`-th one on. -/
def registerElements (r : Registration) : Nat → Nat → Regions tracker → Option (Regions tracker)
  | 0, _, regions => some regions
  | left + 1, i, regions =>
      let start := (r.address.toNat + i * r.stride.toNat) % 2 ^ 64
      let reference := { r.reference with
        objectOffset := BitVec.ofNat 64 (r.offset + i * r.stride.toNat) }
      match registerSourceUnlocked regions start r.size.toNat reference with
      | none => none
      | some regions => registerElements r left (i + 1) regions

/-- `register_source`. -/
def registerSource (regions : Regions tracker) (r : Registration) : Option (Regions tracker) :=
  if r.size = 0 then some regions
  else if r.elements = 0 then none
  else if r.source.selfTest = false then none
  else if r.offset > 2 ^ 63 - 1 then none
  else if r.elements = 1 then
    registerSourceUnlocked regions r.address.toNat r.size.toNat r.reference
  else if r.stride = 0 then
    let total := r.size.toNat * r.elements.toNat % 2 ^ 64
    if total / r.elements.toNat = r.size.toNat then
      registerSourceUnlocked regions r.address.toNat total r.reference
    else
      none
  else
    registerElements r r.elements.toNat 0 regions

/-- The loop of `copy_sources` over the collected spans. -/
def registerSpans (dstAddress srcAddress : Nat) :
    List SourceSpan → Regions tracker → Option (Regions tracker)
  | [], regions => some regions
  | entry :: rest, regions =>
      let dstStart := (dstAddress + (entry.start - srcAddress)) % 2 ^ 64
      match registerSourceUnlocked regions dstStart (entry.stop - entry.start) entry.reference with
      | none => none
      | some regions => registerSpans dstAddress srcAddress rest regions

/-- `copy_sources`.  Where both are the same object, `source` is the state in front of the
copy: all spans are collected before the first one is registered. -/
def copySources (regions source : Regions tracker) (dstAddress srcAddress srcSize : UInt64) :
    Option (Regions tracker) :=
  if srcSize = 0 then some regions
  else
    match checkedEnd dstAddress.toNat srcSize.toNat with
    | none => none
    | some _ =>
        match collectSpans source srcAddress.toNat srcSize.toNat false with
        | none => none
        | some (_, pending) =>
            registerSpans dstAddress.toNat srcAddress.toNat pending regions

/-- `try_get_reference`; the outer `none` is a failed assertion and the inner one the result
`false`. -/
def tryGetReference (regions : Regions tracker) (address : UInt64) (size : UInt32) :
    Option (Option HostWriteReference) :=
  if size = 0 then none
  else
    match collectSpans regions address.toNat size.toNat true with
    | none => none
    | some (false, _) => some none
    | some (true, []) => none
    | some (true, front :: rest) =>
        if (front :: rest).all fun span =>
            sameReference span.reference front.reference ∧
              span.reference.objectOffset =
                front.reference.objectOffset + BitVec.ofNat 64 (span.start - address.toNat) then
          some (some front.reference)
        else
          some none

/-- Calls on the regions of any number of objects. -/
inductive Call (Object : Type) where
  | registerSource (object : Object) (registration : Registration)
  | copySources (object source : Object) (dstAddress srcAddress srcSize : UInt64)

/-- One call. -/
def step {Object : Type} [DecidableEq Object] (objects : Object → Regions tracker) :
    Call Object → Option (Object → Regions tracker)
  | .registerSource object registration =>
      (registerSource (objects object) registration).map (Function.update objects object)
  | .copySources object source dstAddress srcAddress srcSize =>
      (copySources (objects object) (objects source) dstAddress srcAddress srcSize).map
        (Function.update objects object)

end

/-! ## The map that the regions stand for -/

/-- What is known about a byte: the packet that wrote it, as far as `same_source` compares
it, the stage, and the offset in the object. -/
structure Provenance where
  packet : UInt32
  frame : UInt32
  thread : UInt8
  callId : UInt16
  stageIndex : UInt32
  objectOffset : BitVec 64
deriving DecidableEq, Repr

def HostWriteReference.provenance (reference : HostWriteReference) : Provenance :=
  ⟨reference.source.packet, reference.source.frame, reference.source.thread,
    reference.source.callId, reference.stageIndex, reference.objectOffset⟩

/-- The provenance of a byte so many bytes further on. -/
def Provenance.shift (provenance : Provenance) (distance : BitVec 64) : Provenance :=
  { provenance with objectOffset := provenance.objectOffset + distance }

/-- The bytes that `register_source` writes: one range if there is no stride, else one for
each element. -/
def Registration.Covers (r : Registration) (b : Nat) : Prop :=
  if r.elements = 1 ∨ r.stride = 0 then
    r.address.toNat ≤ b ∧ b < r.address.toNat + r.size.toNat * r.elements.toNat
  else
    ∃ i < r.elements.toNat, (r.address.toNat + i * r.stride.toNat) % 2 ^ 64 ≤ b ∧
      b < (r.address.toNat + i * r.stride.toNat) % 2 ^ 64 + r.size.toNat

instance (r : Registration) (b : Nat) : Decidable (r.Covers b) := by
  unfold Registration.Covers
  infer_instance

/-- The source, the stage, and the object offset plus the distance from the address. -/
def Registration.provenanceAt (r : Registration) (b : Nat) : Provenance :=
  r.reference.provenance.shift (BitVec.ofNat 64 b - BitVec.ofNat 64 r.address.toNat)

/-- What a call makes of the maps.  A byte that is copied from an unknown one stays what it
was. -/
def apply {Object : Type} [DecidableEq Object] (maps : Object → Nat → Option Provenance) :
    Call Object → Object → Nat → Option Provenance
  | .registerSource object r =>
      Function.update maps object fun b =>
        if r.Covers b then some (r.provenanceAt b) else maps object b
  | .copySources object source dstAddress srcAddress srcSize =>
      Function.update maps object fun b =>
        if dstAddress.toNat ≤ b ∧ b < dstAddress.toNat + srcSize.toNat then
          (maps source (srcAddress.toNat + (b - dstAddress.toNat))).or (maps object b)
        else
          maps object b

/-- The maps behind calls. -/
def reference {Object : Type} [DecidableEq Object] (calls : List (Call Object)) :
    Object → Nat → Option Provenance :=
  calls.foldl apply fun _ _ => none

/-- What `try_get_reference` is for: the provenance of the first byte, if all bytes are known
and follow it. -/
def lookup (map : Nat → Option Provenance) (address size : Nat) : Option Provenance :=
  match map address with
  | none => none
  | some first =>
      if ∀ k < size, map (address + k) = some (first.shift (BitVec.ofNat 64 k)) then some first
      else none

/-- The calls that no assertion stops. -/
def Call.Valid {Object : Type} : Call Object → Prop
  | .registerSource _ r => r.size = 0 ∨
      r.elements ≠ 0 ∧ r.source.selfTest = true ∧ r.offset ≤ 2 ^ 63 - 1 ∧
        (r.elements ≠ 1 → r.stride = 0 → r.size.toNat * r.elements.toNat < 2 ^ 64)
  | .copySources _ _ dstAddress srcAddress srcSize => srcSize = 0 ∨
      dstAddress.toNat + srcSize.toNat < 2 ^ 64 ∧ srcAddress.toNat + srcSize.toNat < 2 ^ 64

instance {Object : Type} (call : Call Object) : Decidable call.Valid := by
  cases call <;> unfold Call.Valid <;> infer_instance

/-! ## What is recorded -/

section

variable {tracker : MemoryFlagTracker} {fragmentAt : tracker.State → Nat → Option Nat}
  {regions : Regions tracker}

/-- The provenance that is recorded for a byte. -/
def recorded (fragmentAt : tracker.State → Nat → Option Nat) (regions : Regions tracker)
    (b : Nat) : Option Provenance :=
  (fragmentAt regions.tracker b).bind fun id =>
    (regions.fragmentSources id).map fun reference =>
      reference.provenance.shift (BitVec.ofNat 64 b)

/-- **One range.**  Its bytes get the reference, with the distances from the first one. -/
theorem registerSourceUnlocked_spec (hlawful : tracker.Lawful fragmentAt)
    (regions : Regions tracker) (address size : Nat) (reference : HostWriteReference) :
    ∃ next, registerSourceUnlocked regions address size reference = some next ∧
      ∀ b, recorded fragmentAt next b =
        if address ≤ b ∧ b < address + size then
          some (reference.provenance.shift (BitVec.ofNat 64 b - BitVec.ofNat 64 address))
        else
          recorded fragmentAt regions b := by
  unfold registerSourceUnlocked
  by_cases hsize : size = 0
  · rw [if_pos hsize]
    refine ⟨regions, rfl, fun b => ?_⟩
    rw [if_neg (by omega)]
  · obtain ⟨id, hfresh, hquery, hwritten⟩ :=
      hlawful.write regions.tracker address size (Nat.pos_of_ne_zero hsize)
    rw [if_neg hsize]
    simp only [hquery, if_true]
    refine ⟨_, rfl, fun b => ?_⟩
    simp only [recorded, hwritten]
    split
    · simp only [Option.bind_some, Function.update_self, Option.map_some, Option.some.injEq]
      simp only [HostWriteReference.provenance, Provenance.shift, Provenance.mk.injEq, true_and]
      grind
    · -- the other bytes are in other fragments
      cases hfragment : fragmentAt regions.tracker b with
      | none => rfl
      | some other =>
          have hother : other ≠ id := by
            rintro rfl
            exact hfresh b hfragment
          simp only [Option.bind_some, Function.update_of_ne hother]

/-- The start of an element, as `register_source` computes it. -/
def Registration.elementStart (r : Registration) (i : Nat) : Nat :=
  (r.address.toNat + i * r.stride.toNat) % 2 ^ 64

/-- The offset of an element goes with its start, also where the addition wraps. -/
theorem element_provenance (r : Registration) (i b : Nat) :
    (HostWriteReference.provenance { r.reference with
      objectOffset := BitVec.ofNat 64 (r.offset + i * r.stride.toNat) }).shift
        (BitVec.ofNat 64 b - BitVec.ofNat 64 (r.elementStart i)) = r.provenanceAt b := by
  have hstart : BitVec.ofNat 64 (r.elementStart i) =
      BitVec.ofNat 64 (r.address.toNat + i * r.stride.toNat) := by
    apply BitVec.eq_of_toNat_eq
    simp [Registration.elementStart]
  simp only [Registration.provenanceAt, HostWriteReference.provenance, Provenance.shift,
    Registration.reference, hstart, BitVec.ofNat_add, Provenance.mk.injEq, true_and]
  grind

/-- **The loop over the elements.**  They may overlap. -/
theorem registerElements_spec (hlawful : tracker.Lawful fragmentAt) (r : Registration)
    (left i : Nat) (regions : Regions tracker) :
    ∃ next, registerElements r left i regions = some next ∧
      ∀ b, recorded fragmentAt next b =
        if ∃ j < left, r.elementStart (i + j) ≤ b ∧
            b < r.elementStart (i + j) + r.size.toNat then
          some (r.provenanceAt b)
        else
          recorded fragmentAt regions b := by
  induction left generalizing i regions with
  | zero => exact ⟨regions, rfl, fun b => by simp⟩
  | succ left ih =>
      obtain ⟨middle, hmiddle, hfirst⟩ := registerSourceUnlocked_spec hlawful regions
        (r.elementStart i) r.size.toNat { r.reference with
          objectOffset := BitVec.ofNat 64 (r.offset + i * r.stride.toNat) }
      obtain ⟨next, hnext, hrest⟩ := ih (i + 1) middle
      unfold Registration.elementStart at hmiddle
      simp only [registerElements, hmiddle]
      refine ⟨next, hnext, fun b => ?_⟩
      rw [hrest, hfirst, element_provenance]
      -- the byte is in the first element or in a later one
      have hsplit : (∃ j < left + 1, r.elementStart (i + j) ≤ b ∧
            b < r.elementStart (i + j) + r.size.toNat) ↔
          (r.elementStart i ≤ b ∧ b < r.elementStart i + r.size.toNat) ∨
            ∃ j < left, r.elementStart (i + 1 + j) ≤ b ∧
              b < r.elementStart (i + 1 + j) + r.size.toNat := by
        rw [Nat.exists_lt_succ_left]
        simp only [Nat.add_zero, Nat.add_assoc, Nat.add_comm 1]
      simp only [hsplit]
      split
      · case _ hlater => rw [if_pos (Or.inr hlater)]
      · case _ hlater =>
          split
          · case _ hhere => rw [if_pos (Or.inl hhere)]
          · case _ hhere => rw [if_neg (not_or.mpr ⟨hhere, hlater⟩)]

/-- **`register_source`** sets what it covers. -/
theorem registerSource_spec (hlawful : tracker.Lawful fragmentAt) {Object : Type}
    {object : Object} {r : Registration} (hvalid : (Call.registerSource object r).Valid)
    (regions : Regions tracker) :
    ∃ next, registerSource regions r = some next ∧
      ∀ b, recorded fragmentAt next b =
        if r.Covers b then some (r.provenanceAt b) else recorded fragmentAt regions b := by
  -- one range from the address on
  have hrange : ∀ size, (∀ b, r.Covers b ↔ r.address.toNat ≤ b ∧ b < r.address.toNat + size) →
      ∃ next, registerSourceUnlocked regions r.address.toNat size r.reference = some next ∧
        ∀ b, recorded fragmentAt next b =
          if r.Covers b then some (r.provenanceAt b) else recorded fragmentAt regions b := by
    intro size hcovers
    obtain ⟨next, hnext, hspec⟩ := registerSourceUnlocked_spec hlawful regions r.address.toNat
      size r.reference
    refine ⟨next, hnext, fun b => ?_⟩
    simp only [hspec, hcovers]
    rfl
  unfold registerSource
  by_cases hsize : r.size = 0
  · rw [if_pos hsize]
    refine ⟨regions, rfl, fun b => ?_⟩
    rw [if_neg]
    unfold Registration.Covers
    have hzero : r.size.toNat = 0 := by simp [hsize]
    split
    · rw [hzero]
      omega
    · rintro ⟨i, -, hle, hlt⟩
      omega
  · obtain ⟨helements, htest, hoffset, htotal⟩ := hvalid.resolve_left hsize
    rw [if_neg hsize, if_neg helements, if_neg (by simp [htest]), if_neg (by omega)]
    by_cases hone : r.elements = 1
    · rw [if_pos hone]
      apply hrange
      intro b
      unfold Registration.Covers
      rw [if_pos (Or.inl hone), hone]
      simp
    · rw [if_neg hone]
      by_cases hstride : r.stride = 0
      · have hfits := htotal hone hstride
        have hpositive : 0 < r.elements.toNat := by
          refine Nat.pos_of_ne_zero fun hzero => helements ?_
          exact UInt32.toNat_inj.mp hzero
        rw [if_pos hstride]
        simp only [Nat.mod_eq_of_lt hfits]
        rw [if_pos (Nat.mul_div_cancel _ hpositive)]
        apply hrange
        intro b
        unfold Registration.Covers
        rw [if_pos (Or.inr hstride)]
      · rw [if_neg hstride]
        obtain ⟨next, hnext, hspec⟩ :=
          registerElements_spec hlawful r r.elements.toNat 0 regions
        refine ⟨next, hnext, fun b => ?_⟩
        simp only [hspec, Nat.zero_add]
        unfold Registration.Covers Registration.elementStart
        simp only [hone, hstride, or_self, if_false]

end

/-! ## The collected spans -/

/-- The spans tell the truth about their bytes. -/
structure Honest (map : Nat → Option Provenance) (out : List SourceSpan) : Prop where
  nonempty : ∀ span ∈ out, span.start < span.stop
  bytes : ∀ span ∈ out, ∀ b, span.start ≤ b → b < span.stop →
    map b = some (span.reference.provenance.shift (BitVec.ofNat 64 b - BitVec.ofNat 64 span.start))

/-- The spans hold a byte. -/
def Holds (out : List SourceSpan) (b : Nat) : Prop :=
  ∃ span ∈ out, span.start ≤ b ∧ b < span.stop

instance (out : List SourceSpan) (b : Nat) : Decidable (Holds out b) := by
  unfold Holds
  infer_instance

section

variable {map : Nat → Option Provenance} {out : List SourceSpan} {start stop : Nat}
  {reference : HostWriteReference}

theorem ofNat_sub {a b : Nat} (hle : a ≤ b) :
    BitVec.ofNat 64 (b - a) = BitVec.ofNat 64 b - BitVec.ofNat 64 a := by
  have hsum : BitVec.ofNat 64 b = BitVec.ofNat 64 (b - a) + BitVec.ofNat 64 a := by
    rw [← BitVec.ofNat_add, Nat.sub_add_cancel hle]
  rw [hsum]
  grind

/-- References are the same up to their offsets. -/
theorem sameReference_iff {a b : HostWriteReference} :
    sameReference a b = true ↔
      a.provenance = { b.provenance with objectOffset := a.objectOffset } := by
  simp only [sameReference, sameSource, HostWriteReference.provenance, Provenance.mk.injEq,
    decide_eq_true_eq, and_true, and_assoc]

/-- A span that is made longer still tells the truth: its offset leads to that of the next
one. -/
theorem extended_bytes {back : SourceSpan} (hback : back.start < back.stop)
    (hbytes : ∀ b, back.start ≤ b → b < back.stop → map b = some
      (back.reference.provenance.shift (BitVec.ofNat 64 b - BitVec.ofNat 64 back.start)))
    (hcontiguous : contiguousReference back start reference = true)
    (hnew : ∀ b, start ≤ b → b < stop →
      map b = some (reference.provenance.shift (BitVec.ofNat 64 b - BitVec.ofNat 64 start)))
    {b : Nat} (hle : back.start ≤ b) (hlt : b < stop) :
    map b = some
      (back.reference.provenance.shift (BitVec.ofNat 64 b - BitVec.ofNat 64 back.start)) := by
  simp only [contiguousReference, decide_eq_true_eq] at hcontiguous
  obtain ⟨hsame, hoffset, hstart⟩ := hcontiguous
  rcases Nat.lt_or_ge b back.stop with hold | hbehind
  · exact hbytes b hle hold
  · rw [hnew b (by omega) hlt, sameReference_iff.mp hsame]
    rw [ofNat_sub hback.le, hstart] at hoffset
    simp only [HostWriteReference.provenance, Provenance.shift, Option.some.injEq,
      Provenance.mk.injEq, true_and, ← hoffset]
    grind

/-- **The end of a round.** -/
theorem pushSpan_spec (hhonest : Honest map out) (hlt : start < stop)
    (hnew : ∀ b, start ≤ b → b < stop →
      map b = some (reference.provenance.shift (BitVec.ofNat 64 b - BitVec.ofNat 64 start))) :
    Honest map (pushSpan out start stop reference) ∧
      (∀ b, Holds (pushSpan out start stop reference) b ↔
        Holds out b ∨ (start ≤ b ∧ b < stop)) ∧
      ∃ front ∈ (pushSpan out start stop reference).head?,
        front.start = (out.head?.map SourceSpan.start).getD start := by
  -- a new span, behind those there are
  have happend : Honest map (out ++ [⟨start, stop, reference⟩]) ∧
      (∀ b, Holds (out ++ [⟨start, stop, reference⟩]) b ↔
        Holds out b ∨ (start ≤ b ∧ b < stop)) ∧
      ∃ front ∈ (out ++ [(⟨start, stop, reference⟩ : SourceSpan)]).head?,
        front.start = (out.head?.map SourceSpan.start).getD start := by
    refine ⟨⟨?_, ?_⟩, fun b => ?_, ?_⟩
    · intro span hspan
      cases List.mem_append.mp hspan with
      | inl hold => exact hhonest.nonempty span hold
      | inr hlast => rwa [List.mem_singleton.mp hlast]
    · intro span hspan
      cases List.mem_append.mp hspan with
      | inl hold => exact hhonest.bytes span hold
      | inr hlast =>
          rw [List.mem_singleton.mp hlast]
          exact hnew
    · simp only [Holds, List.mem_append, List.mem_singleton, or_and_right, exists_or,
        exists_eq_left]
    · cases out with
      | nil => exact ⟨⟨start, stop, reference⟩, rfl, rfl⟩
      | cons front rest => exact ⟨front, rfl, rfl⟩
  unfold pushSpan
  cases hback : out.getLast? with
  | none => exact happend
  | some back =>
      simp only
      split
      · case _ hcontiguous =>
          -- the last span goes on
          obtain ⟨earlier, rfl⟩ := List.getLast?_eq_some_iff.mp hback
          rw [List.dropLast_concat]
          have hlast := hhonest.nonempty back (by simp)
          have hstart : back.stop = start := by
            simp only [contiguousReference, decide_eq_true_eq] at hcontiguous
            exact hcontiguous.2.2
          refine ⟨⟨?_, ?_⟩, fun b => ?_, ?_⟩
          · intro span hspan
            cases List.mem_append.mp hspan with
            | inl hold => exact hhonest.nonempty span (List.mem_append_left _ hold)
            | inr hextended =>
                rw [List.mem_singleton.mp hextended]
                simp only
                omega
          · intro span hspan
            cases List.mem_append.mp hspan with
            | inl hold => exact hhonest.bytes span (List.mem_append_left _ hold)
            | inr hextended =>
                rw [List.mem_singleton.mp hextended]
                exact fun b hle hb => extended_bytes hlast (hhonest.bytes back (by simp))
                  hcontiguous hnew hle hb
          · simp only [Holds, List.mem_append, List.mem_singleton, or_and_right, exists_or,
              exists_eq_left, or_assoc]
            refine or_congr_right ?_
            omega
          · cases earlier with
            | nil => exact ⟨{ back with stop := stop }, rfl, rfl⟩
            | cons front rest => exact ⟨front, rfl, rfl⟩
      · exact happend

/-- The fragments of the tracker, with the references that their bytes have. -/
def Describes (sources : Nat → Option HostWriteReference) (map : Nat → Option Provenance)
    (span : FragmentSpan) : Prop :=
  ∀ b, span.start ≤ b → b < span.stop → map b =
    (sources span.fragmentId).map fun reference => reference.provenance.shift (BitVec.ofNat 64 b)

variable {sources : Nat → Option HostWriteReference} {address : Nat}

/-- The part of a fragment that a round of the loop takes. -/
theorem Describes.part {span : FragmentSpan} (hspan : Describes sources map span)
    (hreference : sources span.fragmentId = some reference) (hstart : span.start ≤ start)
    (hstop : stop ≤ span.stop) {b : Nat} (hle : start ≤ b) (hlt : b < stop) :
    map b = some ((HostWriteReference.provenance { reference with
      objectOffset := reference.objectOffset + BitVec.ofNat 64 start }).shift
        (BitVec.ofNat 64 b - BitVec.ofNat 64 start)) := by
  rw [hspan b (by omega) (by omega), hreference, Option.map_some]
  simp only [HostWriteReference.provenance, Provenance.shift, Option.some.injEq,
    Provenance.mk.injEq, true_and]
  grind

/-- **All that is known of a range.** -/
theorem collectLoop_partial {spans : List FragmentSpan} {pos : Nat}
    (hspans : ∀ span ∈ spans, Describes sources map span) (hhonest : Honest map out) :
    Honest map (collectLoop sources address stop false spans pos out).2 ∧
      ∀ b, Holds (collectLoop sources address stop false spans pos out).2 b ↔
        Holds out b ∨ (address ≤ b ∧ b < stop ∧
          (∃ span ∈ spans, span.start ≤ b ∧ b < span.stop) ∧ (map b).isSome = true) := by
  induction spans generalizing out with
  | nil => exact ⟨hhonest, fun b => by simp [collectLoop]⟩
  | cons span rest ih =>
      have hspan := hspans span List.mem_cons_self
      have hrest := fun other hother => hspans other (List.mem_cons_of_mem _ hother)
      -- a round that takes nothing of the fragment
      have hskip : (∀ b, address ≤ b → b < stop → span.start ≤ b → b < span.stop →
          map b = none) →
          Honest map (collectLoop sources address stop false rest pos out).2 ∧
            ∀ b, Holds (collectLoop sources address stop false rest pos out).2 b ↔
              Holds out b ∨ (address ≤ b ∧ b < stop ∧
                (∃ other ∈ span :: rest, other.start ≤ b ∧ b < other.stop) ∧
                (map b).isSome = true) := by
        intro hnone
        obtain ⟨hout, hholds⟩ := ih hrest hhonest
        refine ⟨hout, fun b => ?_⟩
        rw [hholds]
        simp only [List.mem_cons, exists_eq_or_imp]
        constructor
        · rintro (hold | ⟨hle, hlt, hin, hknown⟩)
          · exact Or.inl hold
          · exact Or.inr ⟨hle, hlt, Or.inr hin, hknown⟩
        · rintro (hold | ⟨hle, hlt, hhere | hin, hknown⟩)
          · exact Or.inl hold
          · rw [hnone b hle hlt hhere.1 hhere.2] at hknown
            cases hknown
          · exact Or.inr ⟨hle, hlt, hin, hknown⟩
      simp only [collectLoop, Bool.false_eq_true, false_and, if_false]
      split
      · case _ hempty => exact hskip fun b hle hlt hstart hstop => by omega
      · case _ hpart =>
          cases hreference : sources span.fragmentId with
          | none =>
              -- the fragment has no source, so that its bytes are unknown
              refine hskip fun b _ _ hstart hstop => ?_
              rw [hspan b hstart hstop, hreference]
              rfl
          | some reference =>
              obtain ⟨hpushed, hpushedHolds, -⟩ := pushSpan_spec hhonest
                (show max span.start address < min span.stop stop by omega)
                (fun b hle hlt => hspan.part hreference (by omega) (by omega) hle hlt)
              obtain ⟨hout, hholds⟩ := ih hrest hpushed
              refine ⟨hout, fun b => ?_⟩
              rw [hholds, hpushedHolds]
              simp only [List.mem_cons, exists_eq_or_imp]
              constructor
              · rintro ((hold | hhere) | ⟨hle, hlt, hin, hknown⟩)
                · exact Or.inl hold
                · refine Or.inr ⟨by omega, by omega, Or.inl ⟨by omega, by omega⟩, ?_⟩
                  rw [hspan b (by omega) (by omega), hreference]
                  rfl
                · exact Or.inr ⟨hle, hlt, Or.inr hin, hknown⟩
              · rintro (hold | ⟨hle, hlt, hhere | hin, hknown⟩)
                · exact Or.inl (Or.inl hold)
                · exact Or.inl (Or.inr ⟨by omega, by omega⟩)
                · exact Or.inr ⟨hle, hlt, hin, hknown⟩

/-- **A range without gaps**, or a byte of it that is unknown. -/
theorem collectLoop_full {spans : List FragmentSpan} {pos : Nat}
    (hspans : ∀ span ∈ spans, Describes sources map span)
    (hsorted : spans.Pairwise fun x y => x.stop ≤ y.start)
    (hnonempty : ∀ span ∈ spans, span.start < span.stop)
    (hcovers : ∀ b, pos ≤ b → b < stop → (map b).isSome = true →
      ∃ span ∈ spans, span.start ≤ b ∧ b < span.stop)
    (hhonest : Honest map out) (hholds : ∀ b, Holds out b ↔ address ≤ b ∧ b < pos)
    (hfront : ∀ front ∈ out.head?, front.start = address) (haddress : address ≤ pos)
    (hpos : pos < stop) :
    (∃ out', collectLoop sources address stop true spans pos out = (true, out') ∧
      Honest map out' ∧ (∀ b, Holds out' b ↔ address ≤ b ∧ b < stop) ∧
      ∃ front ∈ out'.head?, front.start = address) ∨
    (∃ out', collectLoop sources address stop true spans pos out = (false, out')) ∧
      ∃ b, address ≤ b ∧ b < stop ∧ map b = none := by
  induction spans generalizing out pos with
  | nil =>
      refine Or.inr ⟨⟨out, by simp [collectLoop, hpos.ne]⟩, pos, haddress, hpos, ?_⟩
      by_contra hknown
      obtain ⟨span, hmem, -⟩ := hcovers pos le_rfl hpos
        (Option.isSome_iff_ne_none.mpr hknown)
      cases hmem
  | cons span rest ih =>
      have hspan := hspans span List.mem_cons_self
      have hrest := fun other hother => hspans other (List.mem_cons_of_mem _ hother)
      have hsize := hnonempty span List.mem_cons_self
      have hrestNonempty := fun other hother => hnonempty other (List.mem_cons_of_mem _ hother)
      obtain ⟨hbehind, hrestSorted⟩ := List.pairwise_cons.mp hsorted
      -- a byte that is not in this fragment is in a later one
      have hlater : ∀ next, pos ≤ next → span.stop ≤ next → ∀ b, next ≤ b → b < stop →
          (map b).isSome = true → ∃ span ∈ rest, span.start ≤ b ∧ b < span.stop := by
        intro next hnext hpast b hb hlt hknown
        obtain ⟨other, hmem, hin⟩ := hcovers b (by omega) hlt hknown
        cases List.mem_cons.mp hmem with
        | inl heq =>
            rw [heq] at hin
            omega
        | inr hmem => exact ⟨other, hmem, hin⟩
      simp only [collectLoop, true_and, if_true]
      split
      · case _ hgap =>
          refine Or.inr ⟨⟨out, rfl⟩, pos, haddress, hpos, ?_⟩
          by_contra hknown
          obtain ⟨other, hmem, hin⟩ := hcovers pos le_rfl hpos
            (Option.isSome_iff_ne_none.mpr hknown)
          cases List.mem_cons.mp hmem with
          | inl heq =>
              rw [heq] at hin
              omega
          | inr hmem =>
              have := hbehind other hmem
              omega
      · case _ hreached =>
          split
          · case _ hempty =>
              exact ih hrest hrestSorted hrestNonempty (hlater pos le_rfl (by omega)) hhonest
                hholds hfront haddress hpos
          · case _ hpart =>
              cases hreference : sources span.fragmentId with
              | none =>
                  refine Or.inr ⟨⟨out, rfl⟩, pos, haddress, hpos, ?_⟩
                  rw [hspan pos (by omega) (by omega), hreference]
                  rfl
              | some reference =>
                  obtain ⟨hpushed, hpushedHolds, front, hhead, hstart⟩ := pushSpan_spec hhonest
                    (show max span.start pos < min span.stop stop by omega)
                    (fun b hle hlt => hspan.part hreference (by omega) (by omega) hle hlt)
                  have hall := fun b => ((hpushedHolds b).trans (or_congr_left (hholds b))).trans
                    (show _ ↔ address ≤ b ∧ b < min span.stop stop by omega)
                  have hfirst : front.start = address := by
                    rw [hstart]
                    cases hold : out.head? with
                    | some old => exact hfront old hold
                    | none =>
                        -- nothing is held yet, so that the loop is still at the address
                        have hnil := List.head?_eq_none_iff.mp hold
                        have hnone := hholds address
                        simp only [hnil, Holds, List.not_mem_nil, false_and, exists_false,
                          false_iff, not_and, not_lt, le_refl, true_imp_iff] at hnone
                        simp only [Option.map_none, Option.getD_none]
                        omega
                  simp only
                  split
                  · case _ hend =>
                      exact Or.inl ⟨_, rfl, hpushed, fun b => by rw [hall, hend],
                        front, hhead, hfirst⟩
                  · case _ hmore =>
                      refine ih hrest hrestSorted hrestNonempty
                        (hlater _ (by omega) (by omega)) hpushed hall ?_ (by omega) (by omega)
                      intro other hother
                      cases hhead.symm.trans hother
                      exact hfirst

end

/-! ## The operations on the map -/

section

variable {tracker : MemoryFlagTracker} {fragmentAt : tracker.State → Nat → Option Nat}
  {regions : Regions tracker}

theorem checkedEnd_eq {address size : Nat} (hend : address + size < 2 ^ 64) :
    checkedEnd address size = some (address + size) := by
  unfold checkedEnd
  simp only [Nat.mod_eq_of_lt hend]
  rw [if_pos (Nat.le_add_right _ _)]

theorem query_describes (hlawful : tracker.Lawful fragmentAt) (regions : Regions tracker)
    (address size : Nat) :
    ∀ span ∈ tracker.queryRangeDetailed regions.tracker address size,
      Describes regions.fragmentSources (recorded fragmentAt regions) span := by
  intro span hspan b hle hlt
  unfold recorded
  rw [hlawful.query_at regions.tracker address size span hspan b hle hlt, Option.bind_some]

/-- A byte is known only if a query finds it. -/
theorem query_covers_recorded (hlawful : tracker.Lawful fragmentAt) (regions : Regions tracker)
    {address size b : Nat} (hle : address ≤ b) (hlt : b < address + size)
    (hknown : (recorded fragmentAt regions b).isSome = true) :
    ∃ span ∈ tracker.queryRangeDetailed regions.tracker address size,
      span.start ≤ b ∧ b < span.stop := by
  cases hfragment : fragmentAt regions.tracker b with
  | none =>
      simp only [recorded, hfragment, Option.bind_none] at hknown
      cases hknown
  | some id => exact hlawful.query_covers regions.tracker address size b id hle hlt hfragment

/-- **The spans that a copy collects** hold what is known of the range. -/
theorem collectSpans_partial (hlawful : tracker.Lawful fragmentAt) (regions : Regions tracker)
    {address size : Nat} (hsize : size ≠ 0) (hend : address + size < 2 ^ 64) :
    ∃ complete out, collectSpans regions address size false = some (complete, out) ∧
      Honest (recorded fragmentAt regions) out ∧
      ∀ b, Holds out b ↔ address ≤ b ∧ b < address + size ∧
        (recorded fragmentAt regions b).isSome = true := by
  obtain ⟨hhonest, hholds⟩ := collectLoop_partial
    (query_describes hlawful regions address size)
    (show Honest (recorded fragmentAt regions) [] by constructor <;> simp)
  refine ⟨_, _, by rw [collectSpans, if_neg hsize, checkedEnd_eq hend], hhonest, fun b => ?_⟩
  rw [hholds]
  constructor
  · rintro (⟨span, hmem, -⟩ | ⟨hle, hlt, -, hknown⟩)
    · cases hmem
    · exact ⟨hle, hlt, hknown⟩
  · rintro ⟨hle, hlt, hknown⟩
    exact Or.inr ⟨hle, hlt, query_covers_recorded hlawful regions hle hlt hknown, hknown⟩

/-- **The loop over the collected spans** writes what they hold, moved to the destination. -/
theorem registerSpans_spec (hlawful : tracker.Lawful fragmentAt)
    {map : Nat → Option Provenance} {dstAddress srcAddress size : Nat}
    (hend : dstAddress + size < 2 ^ 64) {pending : List SourceSpan} (hhonest : Honest map pending)
    (hinside : ∀ span ∈ pending, srcAddress ≤ span.start ∧ span.stop ≤ srcAddress + size)
    (regions : Regions tracker) :
    ∃ next, registerSpans dstAddress srcAddress pending regions = some next ∧
      ∀ b, recorded fragmentAt next b =
        if dstAddress ≤ b ∧ Holds pending (srcAddress + (b - dstAddress)) then
          map (srcAddress + (b - dstAddress))
        else
          recorded fragmentAt regions b := by
  induction pending generalizing regions with
  | nil => exact ⟨regions, rfl, fun b => by simp [Holds]⟩
  | cons entry rest ih =>
      obtain ⟨hsrc, hstop⟩ := hinside entry List.mem_cons_self
      have hsize := hhonest.nonempty entry List.mem_cons_self
      have hstart : (dstAddress + (entry.start - srcAddress)) % 2 ^ 64 =
          dstAddress + (entry.start - srcAddress) := Nat.mod_eq_of_lt (by omega)
      obtain ⟨middle, hmiddle, hfirst⟩ := registerSourceUnlocked_spec hlawful regions
        (dstAddress + (entry.start - srcAddress)) (entry.stop - entry.start) entry.reference
      obtain ⟨next, hnext, hrest⟩ := ih
        ⟨fun span hspan => hhonest.nonempty span (List.mem_cons_of_mem _ hspan),
          fun span hspan => hhonest.bytes span (List.mem_cons_of_mem _ hspan)⟩
        (fun span hspan => hinside span (List.mem_cons_of_mem _ hspan)) middle
      simp only [registerSpans, hstart, hmiddle]
      refine ⟨next, hnext, fun b => ?_⟩
      rw [hrest, hfirst]
      have hsplit : Holds (entry :: rest) (srcAddress + (b - dstAddress)) ↔
          (entry.start ≤ srcAddress + (b - dstAddress) ∧
            srcAddress + (b - dstAddress) < entry.stop) ∨
          Holds rest (srcAddress + (b - dstAddress)) := by
        simp only [Holds, List.mem_cons, exists_eq_or_imp]
      simp only [hsplit]
      by_cases hdst : dstAddress ≤ b
      · simp only [hdst, true_and]
        -- a later span is registered over an earlier one
        by_cases hlater : Holds rest (srcAddress + (b - dstAddress))
        · rw [if_pos hlater, if_pos (Or.inr hlater)]
        · rw [if_neg hlater]
          split
          · case _ hhere =>
              rw [if_pos (Or.inl (by omega)), hhonest.bytes entry List.mem_cons_self _
                (by omega) (by omega)]
              simp only [Provenance.shift, Option.some.injEq, Provenance.mk.injEq, true_and,
                BitVec.ofNat_add, ofNat_sub hdst, ofNat_sub hsrc]
              grind
          · case _ hhere =>
              rw [if_neg]
              rintro (hentry | hrest)
              · omega
              · exact hlater hrest
      · rw [if_neg (by tauto), if_neg (by omega), if_neg (by tauto)]

/-- **`copy_sources`**: a byte whose source is known gets its provenance. -/
theorem copySources_spec (hlawful : tracker.Lawful fragmentAt) {Object : Type}
    {object other : Object} {dstAddress srcAddress srcSize : UInt64}
    (hvalid : (Call.copySources object other dstAddress srcAddress srcSize).Valid)
    (regions source : Regions tracker) :
    ∃ next, copySources regions source dstAddress srcAddress srcSize = some next ∧
      ∀ b, recorded fragmentAt next b =
        if dstAddress.toNat ≤ b ∧ b < dstAddress.toNat + srcSize.toNat then
          (recorded fragmentAt source (srcAddress.toNat + (b - dstAddress.toNat))).or
            (recorded fragmentAt regions b)
        else
          recorded fragmentAt regions b := by
  unfold copySources
  by_cases hzero : srcSize = 0
  · rw [if_pos hzero]
    refine ⟨regions, rfl, fun b => ?_⟩
    rw [if_neg]
    rw [hzero]
    simp only [UInt64.toNat_zero]
    omega
  · obtain ⟨hdst, hsrc⟩ := hvalid.resolve_left hzero
    have hsize : srcSize.toNat ≠ 0 := fun h => hzero (UInt64.toNat_inj.mp h)
    obtain ⟨complete, pending, hcollect, hhonest, hholds⟩ :=
      collectSpans_partial hlawful source hsize hsrc
    have hinside : ∀ span ∈ pending, srcAddress.toNat ≤ span.start ∧
        span.stop ≤ srcAddress.toNat + srcSize.toNat := by
      intro span hspan
      have hlt := hhonest.nonempty span hspan
      have hfirst := (hholds span.start).mp ⟨span, hspan, le_rfl, hlt⟩
      have hlast := (hholds (span.stop - 1)).mp ⟨span, hspan, by omega, by omega⟩
      omega
    obtain ⟨next, hnext, hspec⟩ := registerSpans_spec hlawful hdst hhonest hinside regions
    rw [if_neg hzero, checkedEnd_eq hdst]
    simp only [hcollect]
    refine ⟨next, hnext, fun b => ?_⟩
    simp only [hspec, hholds]
    by_cases hin : dstAddress.toNat ≤ b ∧ b < dstAddress.toNat + srcSize.toNat
    · rw [if_pos hin]
      cases hknown : recorded fragmentAt source (srcAddress.toNat + (b - dstAddress.toNat)) with
      | none => simp
      | some provenance =>
          rw [if_pos ⟨hin.1, by omega, by omega, rfl⟩]
          rfl
    · rw [if_neg hin, if_neg (by omega)]

/-- The spans of a range without gaps agree with the first one exactly if the bytes do. -/
theorem spans_agree_iff {map : Nat → Option Provenance} {out : List SourceSpan}
    {address size : Nat} (hhonest : Honest map out)
    (hholds : ∀ b, Holds out b ↔ address ≤ b ∧ b < address + size) (front : SourceSpan) :
    (∀ span ∈ out, sameReference span.reference front.reference = true ∧
        span.reference.objectOffset =
          front.reference.objectOffset + BitVec.ofNat 64 (span.start - address)) ↔
      ∀ k < size, map (address + k) =
        some (front.reference.provenance.shift (BitVec.ofNat 64 k)) := by
  constructor
  · intro hagree k hk
    obtain ⟨span, hspan, hle, hlt⟩ := (hholds (address + k)).mpr ⟨by omega, by omega⟩
    obtain ⟨hsame, hoffset⟩ := hagree span hspan
    have hinside := (hholds span.start).mp ⟨span, hspan, le_rfl, hhonest.nonempty span hspan⟩
    rw [hhonest.bytes span hspan _ hle hlt, sameReference_iff.mp hsame]
    rw [ofNat_sub hinside.1] at hoffset
    simp only [Provenance.shift, HostWriteReference.provenance, Option.some.injEq,
      Provenance.mk.injEq, true_and, hoffset, BitVec.ofNat_add]
    grind
  · intro hbytes span hspan
    have hlt := hhonest.nonempty span hspan
    have hinside := (hholds span.start).mp ⟨span, hspan, le_rfl, hlt⟩
    have hbyte := hbytes (span.start - address) (by omega)
    rw [Nat.add_sub_of_le hinside.1, hhonest.bytes span hspan _ le_rfl hlt,
      Option.some.injEq] at hbyte
    simp only [Provenance.shift, HostWriteReference.provenance, Provenance.mk.injEq,
      BitVec.sub_self, BitVec.add_zero] at hbyte
    obtain ⟨hpacket, hframe, hthread, hcall, hstage, hoffset⟩ := hbyte
    refine ⟨?_, hoffset⟩
    rw [sameReference_iff]
    simp only [HostWriteReference.provenance, Provenance.mk.injEq]
    exact ⟨hpacket, hframe, hthread, hcall, hstage, trivial⟩

/-- **`try_get_reference`** looks the range up in the map. -/
theorem tryGetReference_spec (hlawful : tracker.Lawful fragmentAt) (regions : Regions tracker)
    {address : UInt64} {size : UInt32} (hsize : size ≠ 0)
    (hend : address.toNat + size.toNat < 2 ^ 64) :
    ∃ result, tryGetReference regions address size = some result ∧
      result.map HostWriteReference.provenance =
        lookup (recorded fragmentAt regions) address.toNat size.toNat := by
  have hpositive : size.toNat ≠ 0 := fun h => hsize (UInt32.toNat_inj.mp h)
  unfold tryGetReference
  rw [if_neg hsize, collectSpans, if_neg hpositive, checkedEnd_eq hend]
  simp only
  obtain ⟨out, hloop, hhonest, hholds, front, hhead, hfront⟩ | ⟨⟨out, hloop⟩, b, hle, hlt, hnone⟩ :=
    collectLoop_full (query_describes hlawful regions address.toNat size.toNat)
      (hlawful.query_sorted _ _ _) (hlawful.query_nonempty _ _ _)
      (fun b hle hlt => query_covers_recorded hlawful regions hle hlt)
      (show Honest (recorded fragmentAt regions) [] by constructor <;> simp)
      (fun b => by simp [Holds]) (by simp) le_rfl
      (show address.toNat < address.toNat + size.toNat by omega)
  · rw [hloop]
    cases out with
    | nil => cases hhead
    | cons first rest =>
        cases hhead
        have hagree := spans_agree_iff hhonest hholds front
        have hfirst : recorded fragmentAt regions address.toNat =
            some front.reference.provenance := by
          rw [← hfront, hhonest.bytes front List.mem_cons_self _ le_rfl
            (hhonest.nonempty front List.mem_cons_self)]
          simp [Provenance.shift]
        simp only [lookup, hfirst, ← hagree, List.all_eq_true, decide_eq_true_eq]
        split
        · exact ⟨some front.reference, rfl, rfl⟩
        · exact ⟨none, rfl, rfl⟩
  · -- a byte is unknown
    rw [hloop]
    refine ⟨none, rfl, ?_⟩
    unfold lookup
    split
    · rfl
    · rw [if_neg]
      · rfl
      · intro hall
        have hknown := hall (b - address.toNat) (by omega)
        rw [Nat.add_sub_of_le hle, hnone] at hknown
        cases hknown

/-- **One call** on the regions of all objects, and on their maps. -/
theorem step_spec (hlawful : tracker.Lawful fragmentAt) {Object : Type} [DecidableEq Object]
    {objects : Object → Regions tracker} {maps : Object → Nat → Option Provenance}
    (hmaps : ∀ object, recorded fragmentAt (objects object) = maps object)
    {call : Call Object} (hvalid : call.Valid) :
    ∃ next, step objects call = some next ∧
      ∀ object, recorded fragmentAt (next object) = apply maps call object := by
  -- the other objects stay
  have hupdate : ∀ (target : Object) (next : Regions tracker) (map : Nat → Option Provenance),
      (∀ b, recorded fragmentAt next b = map b) → ∀ object,
        recorded fragmentAt (Function.update objects target next object) =
          Function.update maps target map object := by
    intro target next map hnext object
    by_cases htarget : object = target
    · subst htarget
      rw [Function.update_self, Function.update_self]
      exact funext hnext
    · rw [Function.update_of_ne htarget, Function.update_of_ne htarget]
      exact hmaps object
  cases call with
  | registerSource object r =>
      obtain ⟨next, hnext, hspec⟩ := registerSource_spec hlawful hvalid (objects object)
      simp only [step, hnext, Option.map_some]
      refine ⟨_, rfl, hupdate object next _ fun b => ?_⟩
      rw [hspec, hmaps]
  | copySources object source dstAddress srcAddress srcSize =>
      obtain ⟨next, hnext, hspec⟩ := copySources_spec hlawful hvalid (objects object)
        (objects source)
      simp only [step, hnext, Option.map_some]
      refine ⟨_, rfl, hupdate object next _ fun b => ?_⟩
      rw [hspec, hmaps, hmaps]

/-- **A run.** -/
theorem exec_spec (hlawful : tracker.Lawful fragmentAt) {Object : Type} [DecidableEq Object]
    {objects : Object → Regions tracker} {maps : Object → Nat → Option Provenance}
    (hmaps : ∀ object, recorded fragmentAt (objects object) = maps object)
    {calls : List (Call Object)} (hvalid : ∀ call ∈ calls, call.Valid) :
    ∃ final, exec step objects calls = some final ∧
      ∀ object, recorded fragmentAt (final object) = calls.foldl apply maps object := by
  induction calls generalizing objects maps with
  | nil => exact ⟨objects, rfl, hmaps⟩
  | cons call rest ih =>
      rw [List.forall_mem_cons] at hvalid
      obtain ⟨next, hstep, hnext⟩ := step_spec hlawful hmaps hvalid.1
      obtain ⟨final, hexec, hfinal⟩ := ih hnext hvalid.2
      exact ⟨final, exec_cons_eq_some_iff.mpr ⟨next, hstep, hexec⟩, hfinal⟩

end

/-- **A last-writer map.**  Every sequence of calls that pass their own assertions runs to
its end, and then a range is looked up as in the map in which `register_source` has set all
the bytes it covers, and `copy_sources` those bytes of its destination whose source byte was
known before the copy. -/
theorem host_write_regions_last_writer {Object : Type} [DecidableEq Object]
    (tracker : MemoryFlagTracker) (fragmentAt : tracker.State → Nat → Option Nat)
    (hlawful : tracker.Lawful fragmentAt) (calls : List (Call Object))
    (hvalid : ∀ call ∈ calls, call.Valid) :
    ∃ objects : Object → Regions tracker,
      exec step (fun _ => Regions.new tracker) calls = some objects ∧
      ∀ object (address : UInt64) (size : UInt32), size ≠ 0 →
        address.toNat + size.toNat < 2 ^ 64 →
        ∃ result, tryGetReference (objects object) address size = some result ∧
          result.map HostWriteReference.provenance =
            lookup (reference calls object) address.toNat size.toNat := by
  have hempty : ∀ object : Object, recorded fragmentAt (Regions.new tracker) =
      (fun (_ : Object) (_ : Nat) => (none : Option Provenance)) object := by
    intro object
    funext b
    simp [recorded, Regions.new]
  obtain ⟨objects, hexec, hrecorded⟩ := exec_spec hlawful hempty hvalid
  refine ⟨objects, hexec, fun object address size hsize hend => ?_⟩
  obtain ⟨result, hresult, hlookup⟩ := tryGetReference_spec hlawful (objects object) hsize hend
  refine ⟨result, hresult, ?_⟩
  rw [hlookup, hrecorded]
  rfl

/-! ## A tracker -/

/-- Fragments in the order of their addresses. -/
structure Fragments where
  spans : List FragmentSpan
  next : Nat
  nonempty : ∀ span ∈ spans, span.start < span.stop
  sorted : spans.Pairwise fun x y => x.stop ≤ y.start
  ids : ∀ span ∈ spans, span.fragmentId < next

/-- The parts of fragments in front of an address. -/
def partsBelow (address : Nat) (spans : List FragmentSpan) : List FragmentSpan :=
  spans.filterMap fun span =>
    if span.start < address then some { span with stop := min span.stop address } else none

/-- The parts of fragments from an address on. -/
def partsAbove (address : Nat) (spans : List FragmentSpan) : List FragmentSpan :=
  spans.filterMap fun span =>
    if address < span.stop then some { span with start := max span.start address } else none

section

variable {address : Nat} {spans : List FragmentSpan} {part : FragmentSpan}

theorem mem_partsBelow : part ∈ partsBelow address spans ↔
    ∃ span ∈ spans, span.start < address ∧ part = { span with stop := min span.stop address } := by
  simp only [partsBelow, List.mem_filterMap]
  refine exists_congr fun span => and_congr_right fun _ => ?_
  split
  · case _ hbelow => simp [hbelow, eq_comm]
  · case _ hbelow => simp [hbelow]

theorem mem_partsAbove : part ∈ partsAbove address spans ↔
    ∃ span ∈ spans, address < span.stop ∧ part = { span with start := max span.start address } := by
  simp only [partsAbove, List.mem_filterMap]
  refine exists_congr fun span => and_congr_right fun _ => ?_
  split
  · case _ habove => simp [habove, eq_comm]
  · case _ habove => simp [habove]

end

/-- The fragments behind a write, which splits what it meets. -/
def writtenSpans (s : Fragments) (address size : Nat) : List FragmentSpan :=
  partsBelow address s.spans ++
    ⟨address, address + size, s.next⟩ :: partsAbove (address + size) s.spans

section

variable {s : Fragments} {address size : Nat} {span : FragmentSpan}

theorem mem_writtenSpans : span ∈ writtenSpans s address size ↔
    (∃ old ∈ s.spans, old.start < address ∧ span = { old with stop := min old.stop address }) ∨
      span = ⟨address, address + size, s.next⟩ ∨
      ∃ old ∈ s.spans, address + size < old.stop ∧
        span = { old with start := max old.start (address + size) } := by
  rw [writtenSpans, List.mem_append, List.mem_cons, mem_partsBelow, mem_partsAbove]

theorem writtenSpans_nonempty (hsize : 0 < size) (hspan : span ∈ writtenSpans s address size) :
    span.start < span.stop := by
  rcases mem_writtenSpans.mp hspan with ⟨old, hold, hbelow, rfl⟩ | rfl | ⟨old, hold, habove, rfl⟩
  · have := s.nonempty old hold
    simp only
    omega
  · simp only
    omega
  · have := s.nonempty old hold
    simp only
    omega

theorem writtenSpans_ids (hspan : span ∈ writtenSpans s address size) :
    span.fragmentId < s.next + 1 := by
  rcases mem_writtenSpans.mp hspan with ⟨old, hold, -, rfl⟩ | rfl | ⟨old, hold, -, rfl⟩
  · exact Nat.lt_succ_of_lt (s.ids old hold)
  · exact Nat.lt_succ_self _
  · exact Nat.lt_succ_of_lt (s.ids old hold)

/-- Parts of sorted fragments are sorted. -/
theorem parts_sorted {part : FragmentSpan → Option FragmentSpan}
    (hpart : ∀ span piece, part span = some piece →
      span.start ≤ piece.start ∧ piece.stop ≤ span.stop) (s : Fragments) :
    (s.spans.filterMap part).Pairwise fun x y => x.stop ≤ y.start := by
  rw [List.pairwise_filterMap]
  refine s.sorted.imp fun {x y} hxy piece hpiece other hother => ?_
  have hfirst := hpart x piece hpiece
  have hsecond := hpart y other hother
  omega

theorem writtenSpans_sorted (s : Fragments) (address size : Nat) :
    (writtenSpans s address size).Pairwise fun x y => x.stop ≤ y.start := by
  unfold writtenSpans
  rw [List.pairwise_append, List.pairwise_cons]
  refine ⟨parts_sorted ?_ s, ⟨fun piece hpiece => ?_, parts_sorted ?_ s⟩,
    fun piece hpiece other hother => ?_⟩
  · intro span piece hpiece
    split at hpiece
    · cases hpiece
      simp only
      omega
    · cases hpiece
  · obtain ⟨old, -, -, rfl⟩ := mem_partsAbove.mp hpiece
    simp only
    omega
  · intro span piece hpiece
    split at hpiece
    · cases hpiece
      simp only
      omega
    · cases hpiece
  · obtain ⟨old, -, -, rfl⟩ := mem_partsBelow.mp hpiece
    cases List.mem_cons.mp hother with
    | inl hnew =>
        rw [hnew]
        simp only
        omega
    | inr habove =>
        obtain ⟨later, -, -, rfl⟩ := mem_partsAbove.mp habove
        simp only
        omega

end

/-- A write. -/
def Fragments.write (s : Fragments) (address size : Nat) : Fragments :=
  if hsize : 0 < size then
    { spans := writtenSpans s address size
      next := s.next + 1
      nonempty := fun _ hspan => writtenSpans_nonempty hsize hspan
      sorted := writtenSpans_sorted s address size
      ids := fun _ hspan => writtenSpans_ids hspan }
  else
    s

/-- The fragment of a byte. -/
def Fragments.find (s : Fragments) (b : Nat) : Option FragmentSpan :=
  s.spans.find? fun span => span.start ≤ b ∧ b < span.stop

/-- A tracker that keeps its fragments in a list, and reports the address of a fragment
together with its number. -/
def fragmentTracker : MemoryFlagTracker where
  State := Fragments
  empty := ⟨[], 0, by simp, by simp, by simp⟩
  write := Fragments.write
  queryDetailed s b := (s.find b).map fun span => (span.start, span.fragmentId)
  queryRangeDetailed s address size :=
    s.spans.filter fun span => span.start < address + size ∧ address < span.stop

/-- The number of the fragment of a byte. -/
def Fragments.fragmentAt (s : Fragments) (b : Nat) : Option Nat :=
  (s.find b).map FragmentSpan.fragmentId

section

variable {s : Fragments} {b : Nat} {span : FragmentSpan}

theorem find_eq_some_iff :
    s.find b = some span ↔ span ∈ s.spans ∧ span.start ≤ b ∧ b < span.stop := by
  constructor
  · intro hfind
    have hin := List.find?_some hfind
    exact ⟨List.mem_of_find?_eq_some hfind, by simpa using hin⟩
  · rintro ⟨hmem, hin⟩
    -- the byte is in one fragment only
    have hunique : ∀ ⦃x⦄, x ∈ s.spans → ∀ ⦃y⦄, y ∈ s.spans → (x.start ≤ b ∧ b < x.stop) →
        (y.start ≤ b ∧ b < y.stop) → x = y := by
      apply List.Pairwise.forall_of_forall_of_flip
      · intro x _ _ _
        rfl
      · refine s.sorted.imp fun hxy hx hy => ?_
        omega
      · refine s.sorted.imp fun hxy hy hx => ?_
        omega
    cases hfind : s.find b with
    | none =>
        have := List.find?_eq_none.mp hfind span hmem
        simp only [decide_eq_true_eq] at this
        exact absurd hin this
    | some found =>
        have hfound := List.find?_some hfind
        simp only [decide_eq_true_eq] at hfound
        rw [hunique (List.mem_of_find?_eq_some hfind) hmem hfound hin]

theorem fragmentAt_eq_some_iff {id : Nat} : s.fragmentAt b = some id ↔
    ∃ span ∈ s.spans, (span.start ≤ b ∧ b < span.stop) ∧ span.fragmentId = id := by
  simp only [Fragments.fragmentAt, Option.map_eq_some_iff, find_eq_some_iff, and_assoc]

theorem write_spans {address size : Nat} (hsize : 0 < size) :
    (s.write address size).spans = writtenSpans s address size := by
  simp [Fragments.write, hsize]

/-- The bytes of a write are in the new fragment, the others where they were. -/
theorem write_fragmentAt {address size : Nat} (hsize : 0 < size) :
    (s.write address size).fragmentAt b =
      if address ≤ b ∧ b < address + size then some s.next else s.fragmentAt b := by
  split
  · case _ hin =>
      rw [fragmentAt_eq_some_iff, write_spans hsize]
      exact ⟨⟨address, address + size, s.next⟩, mem_writtenSpans.mpr (Or.inr (Or.inl rfl)), hin,
        rfl⟩
  · case _ hout =>
      ext id
      rw [fragmentAt_eq_some_iff, fragmentAt_eq_some_iff, write_spans hsize]
      constructor
      · rintro ⟨part, hpart, hin, rfl⟩
        rcases mem_writtenSpans.mp hpart with ⟨old, hold, -, rfl⟩ | rfl | ⟨old, hold, -, rfl⟩
        · simp only at hin
          exact ⟨old, hold, by omega, rfl⟩
        · exact absurd hin hout
        · simp only at hin
          exact ⟨old, hold, by omega, rfl⟩
      · rintro ⟨old, hold, hin, rfl⟩
        rcases Nat.lt_or_ge b address with hbelow | habove
        · refine ⟨{ old with stop := min old.stop address }, mem_writtenSpans.mpr
            (Or.inl ⟨old, hold, by omega, rfl⟩), ?_, rfl⟩
          simp only
          omega
        · refine ⟨{ old with start := max old.start (address + size) }, mem_writtenSpans.mpr
            (Or.inr (Or.inr ⟨old, hold, by omega, rfl⟩)), ?_, rfl⟩
          simp only
          omega

theorem write_find (s : Fragments) (address : Nat) {size : Nat} (hsize : 0 < size) :
    (s.write address size).find address = some ⟨address, address + size, s.next⟩ := by
  rw [find_eq_some_iff, write_spans hsize]
  exact ⟨mem_writtenSpans.mpr (Or.inr (Or.inl rfl)), le_rfl, Nat.lt_add_of_pos_right hsize⟩

theorem fragmentTracker_lawful : fragmentTracker.Lawful Fragments.fragmentAt where
  empty_at b := rfl
  write s address size hsize := by
    refine ⟨s.next, fun b hat => ?_, ?_, fun b => write_fragmentAt hsize⟩
    · obtain ⟨span, hspan, -, hid⟩ := fragmentAt_eq_some_iff.mp hat
      exact absurd (s.ids span hspan) (by omega)
    · exact congrArg (Option.map fun span => (span.start, span.fragmentId))
        (write_find s address hsize)
  query_at s address size span hspan b hle hlt :=
    fragmentAt_eq_some_iff.mpr ⟨span, List.mem_of_mem_filter hspan, ⟨hle, hlt⟩, rfl⟩
  query_sorted s address size := s.sorted.filter _
  query_nonempty s address size span hspan := s.nonempty span (List.mem_of_mem_filter hspan)
  query_covers s address size b id hle hlt hat := by
    obtain ⟨span, hspan, hin, -⟩ := fragmentAt_eq_some_iff.mp hat
    refine ⟨span, List.mem_filter.mpr ⟨hspan, ?_⟩, hin⟩
    simp only [decide_eq_true_eq]
    omega

end

/-- A source, as the packet of an API call has it. -/
def packetSource (packet : UInt32) : ChangeSource := ⟨packet, 0, 1, 2, 7⟩

/-- Two regions: a range and three elements that overlap each other are copied together with
the gap between them, and then moved by two bytes. -/
def copiedRegions : List (Call Bool) :=
  [.registerSource false { address := 0, size := 8, source := packetSource 1 },
    .registerSource false
      { address := 16, size := 4, source := packetSource 2, elements := 3, stride := 2 },
    .copySources true false 100 4 20, .copySources true true 102 100 8]

theorem host_write_regions_last_writer_copied :
    ∃ objects : Bool → Regions fragmentTracker,
      exec step (fun _ => Regions.new fragmentTracker) copiedRegions = some objects ∧
      (∃ result, tryGetReference (objects true) 100 6 = some result ∧
        result.map HostWriteReference.provenance = none) ∧
      ∃ result, tryGetReference (objects true) 102 4 = some result ∧
        result.map HostWriteReference.provenance = some ⟨1, 0, 1, 7, 0xfffffffe, 4⟩ := by
  obtain ⟨objects, hexec, hlookup⟩ := host_write_regions_last_writer fragmentTracker
    Fragments.fragmentAt fragmentTracker_lawful copiedRegions (by decide)
  refine ⟨objects, hexec, ?_, ?_⟩
  · obtain ⟨result, hresult, hmap⟩ := hlookup true 100 6 (by decide) (by decide)
    exact ⟨result, hresult, hmap.trans (by decide)⟩
  · obtain ⟨result, hresult, hmap⟩ := hlookup true 102 4 (by decide) (by decide)
    exact ⟨result, hresult, hmap.trans (by decide)⟩

/-- A copy from bytes that were never written leaves the provenance of its destination; and
two bytes whose sources differ in the type of the packet are taken for one. -/
theorem copy_of_unknown_keeps_provenance :
    (∃ before after : Bool → Regions fragmentTracker,
      exec step (fun _ => Regions.new fragmentTracker)
        [.registerSource false { address := 0, size := 8, source := packetSource 1 }] =
          some before ∧
      step before (.copySources false true 0 0 4) = some after ∧
      tryGetReference (before true) 0 1 = some none ∧
      tryGetReference (after false) 0 1 = some (some ⟨packetSource 1, 0xfffffffe, 0⟩)) ∧
    ∃ objects : Unit → Regions fragmentTracker,
      exec step (fun _ => Regions.new fragmentTracker)
        [.registerSource () { address := 0, size := 1, source := ⟨1, 0, 1, 3, 7⟩ },
          .registerSource () { address := 1, size := 1, source := ⟨1, 0, 1, 4, 7⟩ }] =
        some objects ∧
      tryGetReference (objects ()) 1 1 = some (some ⟨⟨1, 0, 1, 4, 7⟩, 0xfffffffe, 1⟩) ∧
      tryGetReference (objects ()) 0 2 = some (some ⟨⟨1, 0, 1, 3, 7⟩, 0xfffffffe, 0⟩) := by
  refine ⟨⟨_, _, rfl, rfl, ?_, ?_⟩, _, rfl, ?_, ?_⟩
  all_goals decide

end HostWriteRegions
end Lavatube
