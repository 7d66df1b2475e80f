import Lavatube.HostWriteRegions
import Lavatube.Lib.Sorting

/-!
# Device addresses in parts

When the simulated shader uses a device address, the simulator says where the bits of the address
have come from.  If they all come from one place of a range that was shown to the simulator, this
place gets a marking.

* `findSimulatorSourceRange` — the range that a source is in.
* `collectContiguousDeviceAddressMarking` — the marking, if there is one.
* `Tiles` — the 64 bits of an address, in the order of their bytes, at one place.
* `collect_contiguous_iff` — when the marking is made for the addresses that are at one place.
-/

namespace Lavatube
namespace AddressComponents

open HostWriteRegions

/-! ### The sources -/

/-- `BitLocation` of the simulator, as far as it is told apart. -/
inductive Location where
  | specConstant
  | storageClass
  | other
deriving DecidableEq, Repr

/-- `spv::StorageClass`, as far as it is told apart. -/
inductive StorageClass where
  | pushConstant
  | uniform
  | storageBuffer
  | uniformConstant
  | other
deriving DecidableEq, Repr

/-- `DataSourceBits` of the simulator: `bitcount` bits, which are in memory from `bitOffset` on and
in the address from `valBitOffset` on.  A null pointer is zero. -/
structure DataSourceBits where
  location : Location
  storageClass : StorageClass
  setId : Nat
  bindingId : Nat
  sourcePtr : Nat
  byteOffset : UInt64
  bitOffset : UInt64
  bitcount : UInt64
  valBitOffset : UInt64
deriving DecidableEq, Repr

/-- `simulator_buffer_range`; buffers are given by their index. -/
structure SimulatorBufferRange (tracker : MemoryFlagTracker) where
  basePtr : Nat
  size : UInt64
  bufferData : Option Nat
  bufferOffset : UInt64
  sourceRegions : Option (Regions tracker) := none
  set : Nat := 0xffffffff
  binding : Nat := 0xffffffff
  sourceObjectType : Nat := 0
  sourceObjectIndex : UInt32 := 0xfffffffe
  sourceStageIndex : UInt32 := 0xfffffffe

/-- `VkDeviceAddressTypeARM`. -/
inductive DeviceAddressType where
  | buffer
  | accelerationStructure
deriving DecidableEq, Repr

/-- `VkShaderGroupShaderKHR`. -/
inductive ShaderGroupShader where
  | general
  | closestHit
  | anyHit
  | intersection
deriving DecidableEq, Repr

/-- `VkMarkingTypeARM` with its `VkMarkingSubTypeARM`, as far as they are discovered. -/
inductive MarkingType where
  | deviceAddress (deviceAddressType : DeviceAddressType)
  | shaderGroupHandle (shaderGroupType : ShaderGroupShader)
deriving DecidableEq, Repr

/-- `discovered_buffer_marking`; `source` is there if it is explicit. -/
structure DiscoveredBufferMarking where
  bufferData : Option Nat
  outputObjectType : Nat := 0
  outputObjectIndex : UInt32 := 0xfffffffe
  outputStageIndex : UInt32 := 0xfffffffe
  offset : UInt64
  size : UInt64
  type : MarkingType
  source : Option ChangeSource := none
deriving DecidableEq, Repr

/-- `source_component`; the range is its place in the vector. -/
structure SourceComponent where
  range : Nat
  localOffset : UInt64
  bitcount : UInt64
  valBitOffset : UInt64
deriving DecidableEq, Repr

section

variable {tracker : MemoryFlagTracker}

/-- The first range that a test accepts, with the offset in it. -/
def findRange (ranges : List (SimulatorBufferRange tracker))
    (offsetIn : SimulatorBufferRange tracker → Option UInt64) : Option (Nat × UInt64) :=
  ranges.zipIdx.findSome? fun entry => (offsetIn entry.1).map fun offset => (entry.2, offset)

/-- `find_simulator_range`. -/
def findSimulatorRange (ranges : List (SimulatorBufferRange tracker)) (sourcePtr : Nat)
    (byteOffset size : UInt64) : Option (Nat × UInt64) :=
  if sourcePtr = 0 ∨ size = 0 then none
  else
    findRange ranges fun range =>
      if sourcePtr < range.basePtr ∨ sourcePtr > range.basePtr + range.size.toNat then none
      else
        let offset := UInt64.ofNat (sourcePtr - range.basePtr) + byteOffset
        if offset + size > range.size then none else some offset

/-- `find_simulator_storage_class_range`. -/
def findSimulatorStorageClassRange (ranges : List (SimulatorBufferRange tracker))
    (source : DataSourceBits) (size : UInt64) : Option (Nat × UInt64) :=
  if size = 0 then none
  else
    match source.storageClass with
    | .pushConstant =>
        findRange ranges fun range =>
          if range.sourceRegions.isNone then none
          else if source.byteOffset > range.size ∨ size > range.size - source.byteOffset then none
          else some source.byteOffset
    | .other => none
    | _ =>
        findRange ranges fun range =>
          if range.bufferData.isNone then none
          else if range.set ≠ source.setId ∨ range.binding ≠ source.bindingId then none
          else if source.byteOffset > range.size ∨ size > range.size - source.byteOffset then none
          else some source.byteOffset

/-- `find_simulator_source_range`. -/
def findSimulatorSourceRange (ranges : List (SimulatorBufferRange tracker))
    (source : DataSourceBits) (size : UInt64) : Option (Nat × UInt64) :=
  match source.location with
  | .specConstant => findSimulatorRange ranges source.sourcePtr source.byteOffset size
  | .storageClass =>
      (findSimulatorRange ranges source.sourcePtr source.byteOffset size).or
        (findSimulatorStorageClassRange ranges source size)
  | .other => none

/-- `get_range_source_reference`; the outer `none` is a failed assertion. -/
def getRangeSourceReference (sources : Nat → Regions tracker) (range : SimulatorBufferRange tracker)
    (localOffset : UInt64) (size : UInt32) : Option (Option HostWriteReference) :=
  match range.sourceRegions, range.bufferData with
  | some regions, _ => tryGetReference regions (range.bufferOffset + localOffset) size
  | none, some buffer => tryGetReference (sources buffer) (range.bufferOffset + localOffset) size
  | none, none => some none

/-! ### The marking -/

/-- The first loop of `collect_contiguous_device_address_marking`, for one source. -/
def sourceComponent (ranges : List (SimulatorBufferRange tracker)) (source : DataSourceBits) :
    Option SourceComponent :=
  if source.location ≠ .storageClass ∧ source.location ≠ .specConstant then none
  else if source.bitOffset ≠ 0 ∨ source.bitcount = 0 ∨ source.bitcount % 8 ≠ 0 ∨
      source.valBitOffset % 8 ≠ 0 then none
  else if source.valBitOffset ≥ 64 then none
  else if source.valBitOffset + source.bitcount > 64 then none
  else
    (findSimulatorSourceRange ranges source (source.bitcount / 8)).map fun (range, localOffset) =>
      ⟨range, localOffset, source.bitcount, source.valBitOffset⟩

/-- The second loop, over the sorted components; `none` is a return in it, else the result is
`covered_bits`. -/
def coverBits (range : Nat) (baseOffset : UInt64) : UInt64 → List SourceComponent → Option UInt64
  | coveredBits, [] => some coveredBits
  | coveredBits, component :: components =>
      if component.range ≠ range then none
      else if component.valBitOffset ≠ coveredBits then none
      else if component.localOffset ≠ baseOffset + component.valBitOffset / 8 then none
      else coverBits range baseOffset (coveredBits + component.bitcount) components

/-- The marking of an address that is at an offset of a range; `none` is the abort for a source
that is missing. -/
def addressMarking (sources : Nat → Regions tracker)
    (ranges : List (SimulatorBufferRange tracker)) (index : Nat) (baseOffset : UInt64) :
    Option DiscoveredBufferMarking :=
  (ranges[index]?).bind fun range =>
    ((getRangeSourceReference sources range baseOffset 8).bind id).map fun reference =>
      { bufferData := range.bufferData
        outputObjectType := range.sourceObjectType
        outputObjectIndex :=
          if range.sourceObjectType = 0 then 0xfffffffe else range.sourceObjectIndex
        outputStageIndex :=
          if range.sourceStageIndex = 0xfffffffe then reference.stageIndex
          else range.sourceStageIndex
        offset :=
          if (0 : Int) ≤ reference.objectOffset.toInt then UInt64.ofBitVec reference.objectOffset
          else range.bufferOffset + baseOffset
        size := 8
        type := .deviceAddress .buffer
        source := some reference.source }

/-- `collect_contiguous_device_address_marking`: its result and what has been discovered behind it,
where `none` is an abort. -/
def collectContiguousDeviceAddressMarking
    (sorting : Sorting fun a b : SourceComponent => a.valBitOffset < b.valBitOffset)
    (sources : Nat → Regions tracker) (ranges : List (SimulatorBufferRange tracker))
    (bitComponents : List DataSourceBits) (discovered : List DiscoveredBufferMarking) :
    Option (Bool × List DiscoveredBufferMarking) :=
  match sorting.sort (bitComponents.filterMap (sourceComponent ranges)) with
  | [] => some (false, discovered)
  | front :: components =>
      if coverBits front.range front.localOffset 0 (front :: components) = some 64 then
        (addressMarking sources ranges front.range front.localOffset).map fun marking =>
          (true, discovered ++ [marking])
      else
        some (false, discovered)

end

/-! ### What the marking is for -/

/-- The bit of the address is one of those of the component. -/
def SourceComponent.Covers (component : SourceComponent) (bit : Nat) : Prop :=
  component.valBitOffset.toNat ≤ bit ∧
    bit < component.valBitOffset.toNat + component.bitcount.toNat

instance (component : SourceComponent) (bit : Nat) : Decidable (component.Covers bit) :=
  inferInstanceAs (Decidable (_ ∧ _))

/-- Every bit of an address is in one component, and all of them are in one range, at consecutive
offsets. -/
structure Tiles (components : List SourceComponent) (range : Nat) (baseOffset : UInt64) : Prop where
  covered : ∀ bit < 64, components.countP (fun component => component.Covers bit) = 1
  inRange : ∀ component ∈ components, component.range = range
  consecutive : ∀ component ∈ components,
    component.localOffset = baseOffset + component.valBitOffset / 8

/-- The bits of the component are bits of an address. -/
def SourceComponent.Inside (component : SourceComponent) : Prop :=
  component.valBitOffset.toNat + component.bitcount.toNat ≤ 64

instance (component : SourceComponent) : Decidable component.Inside :=
  inferInstanceAs (Decidable (_ ≤ _))

section

variable {tracker : MemoryFlagTracker} {ranges : List (SimulatorBufferRange tracker)}
variable {components : List SourceComponent} {component : SourceComponent} {range : Nat}
variable {baseOffset coveredBits : UInt64} {source : DataSourceBits}

/-- The components of the sources that can be used. -/
def usableComponents (ranges : List (SimulatorBufferRange tracker))
    (bitComponents : List DataSourceBits) : List SourceComponent :=
  (bitComponents.filterMap (sourceComponent ranges)).filter fun component => component.Inside

/-- What the function is for: if the usable components tile an address, the place where they are is
marked, and else nothing is. -/
structure MarksTiles (sources : Nat → Regions tracker)
    (ranges : List (SimulatorBufferRange tracker)) (bitComponents : List DataSourceBits)
    (discovered : List DiscoveredBufferMarking)
    (result : Option (Bool × List DiscoveredBufferMarking)) : Prop where
  marked : ∀ range baseOffset, Tiles (usableComponents ranges bitComponents) range baseOffset →
    result = (addressMarking sources ranges range baseOffset).map fun marking =>
      (true, discovered ++ [marking])
  unchanged : (∀ range baseOffset,
    ¬ Tiles (usableComponents ranges bitComponents) range baseOffset) →
      result = some (false, discovered)

/-- What the first loop has tested, with sums of 64 bits. -/
structure SourceComponent.Passed (component : SourceComponent) : Prop where
  starts : component.valBitOffset.toNat < 64
  aligned : component.valBitOffset.toNat % 8 = 0
  positive : 0 < component.bitcount.toNat
  whole : component.bitcount.toNat % 8 = 0
  ends : (component.valBitOffset.toNat + component.bitcount.toNat) % 2 ^ 64 ≤ 64

theorem sourceComponent_passed (hcomponent : sourceComponent ranges source = some component) :
    component.Passed := by
  unfold sourceComponent at hcomponent
  split_ifs at hcomponent with hlocation hshape hstart hend
  obtain ⟨found, -, rfl⟩ := Option.map_eq_some_iff.mp hcomponent
  simp only [not_or, not_not] at hshape
  obtain ⟨-, hcount, hwhole, haligned⟩ := hshape
  constructor
  · exact UInt64.lt_iff_toNat_lt.mp (UInt64.not_le.mp hstart)
  · simpa using congrArg UInt64.toNat haligned
  · show 0 < source.bitcount.toNat
    have hne : source.bitcount.toNat ≠ 0 := fun h => hcount (UInt64.toNat_inj.mp h)
    omega
  · simpa using congrArg UInt64.toNat hwhole
  · simpa [UInt64.le_iff_toNat_le] using UInt64.not_lt.mp hend

theorem passed_of_mem {bitComponents : List DataSourceBits}
    (hmem : component ∈ bitComponents.filterMap (sourceComponent ranges)) : component.Passed := by
  obtain ⟨source, -, hsource⟩ := List.mem_filterMap.mp hmem
  exact sourceComponent_passed hsource

/-- The one thing that the loop asks of every component, and how it goes on. -/
theorem coverBits_cons_iff {result : UInt64} :
    coverBits range baseOffset coveredBits (component :: components) = some result ↔
      (component.range = range ∧ component.valBitOffset = coveredBits ∧
        component.localOffset = baseOffset + component.valBitOffset / 8) ∧
      coverBits range baseOffset (coveredBits + component.bitcount) components = some result := by
  rw [coverBits]
  split_ifs with hrange hstart hoffset
  · simp [hrange]
  · simp [hstart]
  · simp [hoffset]
  · simp only [not_not] at hrange hstart hoffset
    simp [hrange, ← hstart, ← hoffset]

/-- In a sorted list the loop does not come back to bits that are covered. -/
theorem behind_of_coverBits {result : UInt64}
    (hsorted : components.Pairwise fun a b => ¬ b.valBitOffset < a.valBitOffset)
    (hcover : coverBits range baseOffset coveredBits components = some result) :
    ∀ component ∈ components, coveredBits.toNat ≤ component.valBitOffset.toNat := by
  cases components with
  | nil => exact fun component hmem => absurd hmem List.not_mem_nil
  | cons front components =>
      rw [coverBits_cons_iff] at hcover
      obtain ⟨⟨-, hstart, -⟩, -⟩ := hcover
      intro component hmem
      rcases List.mem_cons.mp hmem with rfl | hmem
      · rw [hstart]
      · have hle := UInt64.not_lt.mp ((List.pairwise_cons.mp hsorted).1 component hmem)
        rw [← hstart]
        exact UInt64.le_iff_toNat_le.mp hle

theorem covers_start (hpositive : 0 < component.bitcount.toNat) :
    component.Covers component.valBitOffset.toNat :=
  ⟨le_rfl, by omega⟩

theorem countP_covers_cons (bit : Nat) :
    (component :: components).countP (fun other => other.Covers bit) =
      components.countP (fun other => other.Covers bit) +
        if component.Covers bit then 1 else 0 := by
  rw [List.countP_cons]
  simp

/-- The first bit that is not covered is in a component, and none starts before the first one. -/
theorem start_of_covered
    (hsorted : ∀ other ∈ components, ¬ other.valBitOffset < component.valBitOffset)
    (hbehind : coveredBits.toNat ≤ component.valBitOffset.toNat)
    (hone : (component :: components).countP (fun other => other.Covers coveredBits.toNat) = 1) :
    component.valBitOffset = coveredBits := by
  have hpos : 0 < (component :: components).countP
      fun other => other.Covers coveredBits.toNat := by omega
  obtain ⟨other, hmem, hcovers⟩ := List.countP_pos_iff.mp hpos
  have hstarts := (of_decide_eq_true hcovers).1
  refine UInt64.toNat_inj.mp ?_
  rcases List.mem_cons.mp hmem with rfl | hmem
  · omega
  · have hle := UInt64.le_iff_toNat_le.mp (UInt64.not_lt.mp (hsorted other hmem))
    omega

/-- A component whose first bit is in no other one starts behind the first component. -/
theorem behind_of_covered {other : SourceComponent} (hmem : other ∈ components)
    (hpositive : 0 < other.bitcount.toNat)
    (hle : component.valBitOffset.toNat ≤ other.valBitOffset.toNat)
    (hone : (component :: components).countP
      (fun another => another.Covers other.valBitOffset.toNat) = 1) :
    component.valBitOffset.toNat + component.bitcount.toNat ≤ other.valBitOffset.toNat := by
  by_contra hlt
  have hpos : 0 < components.countP fun another => another.Covers other.valBitOffset.toNat :=
    List.countP_pos_iff.mpr ⟨other, hmem, decide_eq_true (covers_start hpositive)⟩
  rw [countP_covers_cons, if_pos ⟨hle, by omega⟩] at hone
  omega

/-- A list in the order of the bits, from the covered ones on: the loop gets through it and to the
end of the address exactly if each of the other bits is in one component. -/
theorem coverBits_eq_some_iff
    (hsorted : components.Pairwise fun a b => ¬ b.valBitOffset < a.valBitOffset)
    (hpassed : ∀ component ∈ components, component.Passed)
    (hinside : ∀ component ∈ components, component.Inside)
    (hbehind : ∀ component ∈ components, coveredBits.toNat ≤ component.valBitOffset.toNat)
    (hcovered : coveredBits.toNat ≤ 64) :
    coverBits range baseOffset coveredBits components = some 64 ↔
      (∀ component ∈ components, component.range = range ∧
        component.localOffset = baseOffset + component.valBitOffset / 8) ∧
      ∀ bit, coveredBits.toNat ≤ bit → bit < 64 →
        components.countP (fun component => component.Covers bit) = 1 := by
  induction components generalizing coveredBits with
  | nil =>
      simp only [coverBits, Option.some_inj, List.not_mem_nil, IsEmpty.forall_iff, implies_true,
        true_and, List.countP_nil]
      constructor
      · rintro rfl bit hle hlt
        exact absurd hle (by simpa using hlt)
      · intro hnone
        have hdone : coveredBits.toNat = 64 := by
          by_contra hne
          exact absurd (hnone coveredBits.toNat le_rfl (by omega)) (by decide)
        exact UInt64.toNat_inj.mp hdone
  | cons front components ih =>
      obtain ⟨hfront, hsorted⟩ := List.pairwise_cons.mp hsorted
      obtain ⟨hpassedFront, hpassed⟩ := List.forall_mem_cons.mp hpassed
      obtain ⟨hinsideFront, hinside⟩ := List.forall_mem_cons.mp hinside
      obtain ⟨hbehindFront, -⟩ := List.forall_mem_cons.mp hbehind
      have hpositive := hpassedFront.positive
      unfold SourceComponent.Inside at hinsideFront
      rw [coverBits_cons_iff]
      -- what comes next starts where the first component ends
      have hnext : front.valBitOffset = coveredBits →
          (coveredBits + front.bitcount).toNat =
            front.valBitOffset.toNat + front.bitcount.toNat := by
        rintro rfl
        rw [UInt64.toNat_add]
        omega
      constructor
      · rintro ⟨⟨hrange, hstart, hoffset⟩, hrest⟩
        have hend := hnext hstart
        have hlow := congrArg UInt64.toNat hstart
        have hrestBehind := behind_of_coverBits hsorted hrest
        obtain ⟨hall, hcount⟩ := (ih hsorted hpassed hinside hrestBehind (by omega)).mp hrest
        refine ⟨List.forall_mem_cons.mpr ⟨⟨hrange, hoffset⟩, hall⟩, fun bit hle hlt => ?_⟩
        rw [countP_covers_cons]
        -- a bit of the first component, or one of the rest
        by_cases hbit : bit < front.valBitOffset.toNat + front.bitcount.toNat
        · have hnone : components.countP (fun component => component.Covers bit) = 0 := by
            rw [List.countP_eq_zero]
            intro component hmem hcovers
            have hbehindRest := hrestBehind component hmem
            have hstarts := (of_decide_eq_true hcovers).1
            omega
          rw [hnone, if_pos ⟨by omega, hbit⟩]
        · rw [hcount bit (by omega) hlt, if_neg fun h => hbit h.2]
      · rintro ⟨hall, hcount⟩
        obtain ⟨hallFront, hall⟩ := List.forall_mem_cons.mp hall
        -- the next bit is in some component, and the first one starts before all others
        have hstart : front.valBitOffset = coveredBits :=
          start_of_covered hfront hbehindFront (hcount coveredBits.toNat le_rfl (by omega))
        have hlow := congrArg UInt64.toNat hstart
        have hend := hnext hstart
        have hrestBehind : ∀ component ∈ components,
            (coveredBits + front.bitcount).toNat ≤ component.valBitOffset.toNat := by
          intro component hmem
          have hle := UInt64.le_iff_toNat_le.mp (UInt64.not_lt.mp (hfront component hmem))
          have hone := hcount component.valBitOffset.toNat (by omega)
            (hpassed component hmem).starts
          rw [hend]
          exact behind_of_covered hmem (hpassed component hmem).positive hle hone
        refine ⟨⟨hallFront.1, hstart, hallFront.2⟩,
          (ih hsorted hpassed hinside hrestBehind (by omega)).mpr ⟨hall, fun bit hle hlt => ?_⟩⟩
        have hone := hcount bit (by omega) hlt
        rw [countP_covers_cons, if_neg fun h => absurd h.2 (by omega)] at hone
        exact hone

/-- Sums that wrap lead back to bits that are covered, and the loop cannot end at the last one. -/
theorem coverBits_wrapped
    (hsorted : components.Pairwise fun a b => ¬ b.valBitOffset < a.valBitOffset)
    (hpassed : ∀ component ∈ components, component.Passed)
    (houtside : ∃ component ∈ components, ¬ component.Inside) :
    coverBits range baseOffset coveredBits components ≠ some 64 := by
  induction components generalizing coveredBits with
  | nil =>
      obtain ⟨component, hmem, -⟩ := houtside
      exact absurd hmem List.not_mem_nil
  | cons front components ih =>
      intro hcover
      rw [coverBits_cons_iff] at hcover
      obtain ⟨⟨-, hstart, -⟩, hrest⟩ := hcover
      obtain ⟨hpassedFront, hpassedRest⟩ := List.forall_mem_cons.mp hpassed
      obtain ⟨hfront, hsortedRest⟩ := List.pairwise_cons.mp hsorted
      obtain ⟨component, hmem, hwraps⟩ := houtside
      rcases List.mem_cons.mp hmem with rfl | hmem
      · have hends := hpassedFront.ends
        have hstarts := hpassedFront.starts
        have hcount := component.bitcount.toNat_lt
        have hwhole := hpassedFront.whole
        simp only [SourceComponent.Inside, not_le] at hwraps
        -- the sum has wrapped, and leads back in front of where the component starts
        have hback : (coveredBits + component.bitcount).toNat < component.valBitOffset.toNat := by
          rw [← hstart, UInt64.toNat_add]
          omega
        cases components with
        | nil =>
            have hdone : coveredBits + component.bitcount = 64 := Option.some_inj.mp hrest
            rw [hdone] at hback
            exact absurd hstarts (not_lt.mpr hback.le)
        | cons next components =>
            obtain ⟨⟨-, hnext, -⟩, -⟩ := coverBits_cons_iff.mp hrest
            have hle := UInt64.le_iff_toNat_le.mp
              (UInt64.not_lt.mp (hfront next List.mem_cons_self))
            rw [hnext] at hle
            omega
      -- the wrapped component is a later one
      · exact ih hsortedRest hpassedRest ⟨component, hmem, hwraps⟩ hrest

/-- One component of a tiling starts the address. -/
theorem Tiles.front (htiles : Tiles components range baseOffset) :
    ∃ component ∈ components, component.valBitOffset = 0 := by
  have hone := htiles.covered 0 (by norm_num)
  obtain ⟨component, hmem, hcovers⟩ := List.countP_pos_iff.mp (hone.symm ▸ Nat.one_pos)
  have hstarts := (of_decide_eq_true hcovers).1
  exact ⟨component, hmem, UInt64.toNat_inj.mp (Nat.le_zero.mp hstarts)⟩

/-- The order of the components is not told apart. -/
theorem Tiles.perm {others : List SourceComponent} (hperm : components.Perm others)
    (htiles : Tiles components range baseOffset) : Tiles others range baseOffset where
  covered := fun bit hlt => by rw [← hperm.countP_eq, htiles.covered bit hlt]
  inRange := fun component hmem => htiles.inRange component (hperm.mem_iff.mpr hmem)
  consecutive := fun component hmem => htiles.consecutive component (hperm.mem_iff.mpr hmem)

/-- The two loops find the tilings of components that are all inside. -/
theorem coverBits_eq_some_iff_tiles
    (hsorted : components.Pairwise fun a b => ¬ b.valBitOffset < a.valBitOffset)
    (hpassed : ∀ component ∈ components, component.Passed)
    (hinside : ∀ component ∈ components, component.Inside) :
    coverBits range baseOffset 0 components = some 64 ↔ Tiles components range baseOffset := by
  rw [coverBits_eq_some_iff hsorted hpassed hinside (fun _ _ => Nat.zero_le _) (by decide)]
  constructor
  · rintro ⟨hall, hcount⟩
    exact ⟨fun bit hlt => hcount bit (Nat.zero_le bit) hlt, fun component hmem =>
      (hall component hmem).1, fun component hmem => (hall component hmem).2⟩
  · intro htiles
    exact ⟨fun component hmem => ⟨htiles.inRange component hmem,
      htiles.consecutive component hmem⟩, fun bit _ hlt => htiles.covered bit hlt⟩

/-- The place of a tiling is the one of the component that comes first. -/
theorem Tiles.place_eq {front : SourceComponent}
    (hsorted : (front :: components).Pairwise fun a b => ¬ b.valBitOffset < a.valBitOffset)
    (htiles : Tiles (front :: components) range baseOffset) :
    range = front.range ∧ baseOffset = front.localOffset := by
  obtain ⟨component, hmem, hstart⟩ := htiles.front
  have hzero : front.valBitOffset = 0 := by
    rcases List.mem_cons.mp hmem with rfl | hmem
    · exact hstart
    · have hle := UInt64.le_iff_toNat_le.mp
        (UInt64.not_lt.mp ((List.pairwise_cons.mp hsorted).1 component hmem))
      rw [hstart] at hle
      exact UInt64.toNat_inj.mp (Nat.le_zero.mp hle)
  refine ⟨(htiles.inRange front List.mem_cons_self).symm, ?_⟩
  have hplace := htiles.consecutive front List.mem_cons_self
  rw [hzero] at hplace
  simpa using hplace.symm

/-- A component has been let through whose bits are not those of an address. -/
def LetsWrapped (ranges : List (SimulatorBufferRange tracker))
    (bitComponents : List DataSourceBits) : Prop :=
  ∃ component ∈ bitComponents.filterMap (sourceComponent ranges), ¬ component.Inside

/-- The components in the order of their bits, by one way of sorting. -/
def byBits : Sorting fun a b : SourceComponent => a.valBitOffset < b.valBitOffset :=
  Sorting.byKey fun component : SourceComponent => component.valBitOffset.toNat

section

variable {sorting : Sorting fun a b : SourceComponent => a.valBitOffset < b.valBitOffset}
variable {bitComponents others : List DataSourceBits} {sources : Nat → Regions tracker}
variable {discovered : List DiscoveredBufferMarking}

theorem sort_perm (hperm : others.Perm bitComponents) :
    (sorting.sort (others.filterMap (sourceComponent ranges))).Perm
      (bitComponents.filterMap (sourceComponent ranges)) :=
  (sorting.perm _).trans (hperm.filterMap _)

/-- With a component whose sum has wrapped nothing is marked. -/
theorem collect_of_letsWrapped (hperm : others.Perm bitComponents)
    (hwrapped : LetsWrapped ranges bitComponents) :
    collectContiguousDeviceAddressMarking sorting sources ranges others discovered =
      some (false, discovered) := by
  have hsame : (sorting.sort (others.filterMap (sourceComponent ranges))).Perm
      (bitComponents.filterMap (sourceComponent ranges)) := sort_perm hperm
  have hsorted := sorting.sorted (others.filterMap (sourceComponent ranges))
  obtain ⟨component, hmem, houtside⟩ := hwrapped
  unfold collectContiguousDeviceAddressMarking
  generalize sorting.sort (others.filterMap (sourceComponent ranges)) = components
    at hsame hsorted ⊢
  cases components with
  | nil => rfl
  | cons front components =>
      have hpassed : ∀ component ∈ front :: components, component.Passed :=
        fun component hmem => passed_of_mem (hsame.mem_iff.mp hmem)
      have hfails : coverBits front.range front.localOffset 0 (front :: components) ≠ some 64 :=
        coverBits_wrapped hsorted hpassed ⟨component, hsame.mem_iff.mpr hmem, houtside⟩
      exact if_neg hfails

/-- Without one the tilings are marked, and nothing else. -/
theorem collect_of_inside (hperm : others.Perm bitComponents)
    (hinside : ¬ LetsWrapped ranges bitComponents) :
    MarksTiles sources ranges bitComponents discovered
      (collectContiguousDeviceAddressMarking sorting sources ranges others discovered) := by
  have hsame : (sorting.sort (others.filterMap (sourceComponent ranges))).Perm
      (bitComponents.filterMap (sourceComponent ranges)) := sort_perm hperm
  have hsorted := sorting.sorted (others.filterMap (sourceComponent ranges))
  have hall : ∀ component ∈ bitComponents.filterMap (sourceComponent ranges), component.Inside :=
    fun component hmem => by_contra fun houtside => hinside ⟨component, hmem, houtside⟩
  -- no component has wrapped, so all of them are usable
  have husable : usableComponents ranges bitComponents =
      bitComponents.filterMap (sourceComponent ranges) :=
    List.filter_eq_self.mpr fun component hmem => decide_eq_true (hall component hmem)
  unfold collectContiguousDeviceAddressMarking
  generalize sorting.sort (others.filterMap (sourceComponent ranges)) = components
    at hsame hsorted ⊢
  cases components with
  | nil =>
      refine ⟨fun range baseOffset htiles => ?_, fun _ => rfl⟩
      rw [husable] at htiles
      obtain ⟨component, hmem, -⟩ := htiles.front
      exact absurd (hsame.mem_iff.mpr hmem) List.not_mem_nil
  | cons front components =>
      have hfound : coverBits front.range front.localOffset 0 (front :: components) = some 64 ↔
          Tiles (front :: components) front.range front.localOffset :=
        coverBits_eq_some_iff_tiles hsorted
          (fun component hmem => passed_of_mem (hsame.mem_iff.mp hmem))
          fun component hmem => hall component (hsame.mem_iff.mp hmem)
      constructor
      · intro range baseOffset htiles
        rw [husable] at htiles
        have htiles := htiles.perm hsame.symm
        obtain ⟨rfl, rfl⟩ := htiles.place_eq hsorted
        exact if_pos (hfound.mpr htiles)
      · intro hnone
        rw [husable] at hnone
        exact if_neg fun hcover => hnone _ _ ((hfound.mp hcover).perm hsame)

end

/-- **Contiguous addresses.**  The place of the usable components is marked exactly if they tile an
address, whatever their order, unless they do and there is another one whose sum has wrapped. -/
theorem collect_contiguous_iff (sources : Nat → Regions tracker)
    (ranges : List (SimulatorBufferRange tracker)) (bitComponents : List DataSourceBits)
    (discovered : List DiscoveredBufferMarking) :
    (∀ sorting others, List.Perm others bitComponents →
      MarksTiles sources ranges bitComponents discovered
        (collectContiguousDeviceAddressMarking sorting sources ranges others discovered)) ↔
      ((∃ range baseOffset, Tiles (usableComponents ranges bitComponents) range baseOffset) →
        ¬ LetsWrapped ranges bitComponents) := by
  constructor
  · rintro hmarks ⟨range, baseOffset, htiles⟩ hwrapped
    have hmarked := (hmarks byBits bitComponents (List.Perm.refl _)).marked range baseOffset htiles
    rw [collect_of_letsWrapped (List.Perm.refl _) hwrapped] at hmarked
    obtain ⟨marking, -, hresult⟩ := Option.map_eq_some_iff.mp hmarked.symm
    cases congrArg Prod.fst hresult
  · intro hcondition sorting others hperm
    by_cases hwrapped : LetsWrapped ranges bitComponents
    · rw [collect_of_letsWrapped hperm hwrapped]
      exact ⟨fun range baseOffset htiles =>
        absurd hwrapped (hcondition ⟨range, baseOffset, htiles⟩), fun _ => rfl⟩
    · exact collect_of_inside hperm hwrapped

end

/-- One range of 64 bytes, of a buffer. -/
def oneRange : List (SimulatorBufferRange fragmentTracker) :=
  [{ basePtr := 4096, size := 64, bufferData := some 0, bufferOffset := 0 }]

/-- An address at the start of the range, and another source, the sum of whose bits wraps to zero
and the sum of whose offset and size does so, too. -/
def wholeAndWrapped : List DataSourceBits :=
  [⟨.storageClass, .storageBuffer, 0, 0, 4096, 0, 0, 64, 0⟩,
    ⟨.storageClass, .storageBuffer, 0, 0, 4096, UInt64.ofNat (2 ^ 64 - 2 ^ 61 + 1), 0,
      UInt64.ofNat (2 ^ 64 - 8), 8⟩]

/-- The 64 bytes are from one packet. -/
def writtenOnce : Regions fragmentTracker :=
  (registerSource (Regions.new fragmentTracker)
    { address := 0, size := 64, source := ⟨7, 1, 0, 1, 0⟩ }).getD (Regions.new fragmentTracker)

/-- The address has a source that a marking can name. -/
theorem writtenOnce_marks :
    addressMarking (fun _ => writtenOnce) oneRange 0 0 =
      some { bufferData := some 0, offset := 0, size := 8, type := .deviceAddress .buffer,
             source := some ⟨7, 1, 0, 1, 0⟩ } := by
  decide

theorem wholeAndWrapped_components :
    wholeAndWrapped.filterMap (sourceComponent oneRange) =
      [⟨0, 0, 64, 0⟩, ⟨0, UInt64.ofNat (2 ^ 64 - 2 ^ 61 + 1), UInt64.ofNat (2 ^ 64 - 8), 8⟩] := by
  decide

/-- The address is at one place, but it is not marked. -/
theorem wrapped_hides_address :
    ¬ ∀ (tracker : MemoryFlagTracker) (sources : Nat → Regions tracker)
      (ranges : List (SimulatorBufferRange tracker)) (bitComponents : List DataSourceBits)
      (discovered : List DiscoveredBufferMarking)
      (sorting : Sorting fun a b : SourceComponent => a.valBitOffset < b.valBitOffset),
      MarksTiles sources ranges bitComponents discovered
        (collectContiguousDeviceAddressMarking sorting sources ranges bitComponents
          discovered) := by
  intro hall
  have hmarks := hall fragmentTracker (fun _ => writtenOnce) oneRange wholeAndWrapped [] byBits
  have husable : usableComponents oneRange wholeAndWrapped = [⟨0, 0, 64, 0⟩] := by
    rw [usableComponents, wholeAndWrapped_components]
    decide
  have htiles : Tiles (usableComponents oneRange wholeAndWrapped) 0 0 := by
    rw [husable]
    exact ⟨by decide, by decide, by decide⟩
  have hwrapped : LetsWrapped oneRange wholeAndWrapped := by
    unfold LetsWrapped
    rw [wholeAndWrapped_components]
    exact ⟨_, List.mem_cons_of_mem _ List.mem_cons_self, by decide⟩
  have hmarked := hmarks.marked 0 0 htiles
  rw [collect_of_letsWrapped (List.Perm.refl _) hwrapped, writtenOnce_marks] at hmarked
  cases hmarked

end AddressComponents
end Lavatube
