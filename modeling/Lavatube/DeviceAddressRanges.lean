import Lavatube.AddressComponents
import Lavatube.AddressRemapper
import Lavatube.Lib.ByteMemory
import Lavatube.Lib.LittleEndian

/-!
# Device address ranges in simulation

Commands that are executed in simulation reach buffers through device addresses.  An address and a
size are mapped to a range of a buffer, and the tables of ray tracing and the instances of
acceleration structures are read there, one record after another.

* `mapDeviceAddressRange` — the range of a buffer for an address and a size.
* `collectStagesFromSbtRegion`, `collectAccelerationStructureInstanceMarkings` — the two readers.
* `At` — the place of an address in a buffer.
* `map_eq_some_iff` — what is mapped, and when the 64-bit sum hides what is not there.
* `ranges_stay_inside_iff` — when ranges and records stay inside of their buffers.
-/

namespace Lavatube
namespace DeviceAddressRanges

open ByteMemory AddressRemapper AddressComponents

/-! ### The simulation -/

/-- `command_execution_data`, as far as addresses are concerned: the remapper, what it leads to,
which of the objects are buffers, and their memory. -/
structure ExecutionData where
  deviceAddressRemapping : Remapper
  heap : Heap
  size_lt : ∀ obj, (heap obj).size < 2 ^ 64
  isBuffer : Pointer → Bool
  mapped : Pointer → Memory

/-- `mapped_address_range`; the pointer is `bufferOffset` bytes behind the mapped memory. -/
structure MappedAddressRange where
  size : UInt64
  bufferOffset : UInt64
  bufferData : Pointer
deriving DecidableEq, Repr

section

variable (data : ExecutionData)

/-- `map_device_address_range`; `none` is `false`. -/
def mapDeviceAddressRange (address size : UInt64) : Option MappedAddressRange :=
  if address = 0 ∨ size = 0 then none
  else
    let obj := data.deviceAddressRemapping.getByAddress data.heap address.toNat
    if obj = 0 ∨ data.isBuffer obj = false then none
    else
      let translated := data.deviceAddressRemapping.translateAddress data.heap address.toNat
      if translated = 0 then none
      else
        let offset := UInt64.ofNat translated - UInt64.ofNat (data.heap obj).deviceAddress
        if offset + size > UInt64.ofNat (data.heap obj).size then none
        else some ⟨size, offset, obj⟩

/-- `VkRayTracingShaderGroupTypeKHR`. -/
inductive GroupType where
  | general
  | trianglesHitGroup
  | proceduralHitGroup
  | other
deriving DecidableEq, Repr

/-- `raytracing_group`; `VK_SHADER_UNUSED_KHR` is `none`. -/
structure RaytracingGroup where
  type : GroupType
  generalShader : Option UInt32
  closestHitShader : Option UInt32
  anyHitShader : Option UInt32
  intersectionShader : Option UInt32
deriving DecidableEq, Repr

/-- The fields of `trackedpipeline` that tables are read with. -/
structure TrackedPipeline where
  shaderStages : Nat
  raytracingGroups : List RaytracingGroup
  raytracingGroupCount : UInt32
  raytracingGroupHandleSize : UInt32
  raytracingGroupHandles : List UInt8
deriving DecidableEq, Repr

/-- `VkStridedDeviceAddressRegionKHR`. -/
structure StridedDeviceAddressRegion where
  deviceAddress : UInt64
  stride : UInt64
  size : UInt64
deriving DecidableEq, Repr

/-- The lambda of `add_raytracing_group_stages`. -/
def addStage (pipeline : TrackedPipeline) (stageIndex : Option UInt32) (stages : List UInt32) :
    List UInt32 :=
  match stageIndex with
  | none => stages
  | some stage => if stage.toNat ≥ pipeline.shaderStages then stages else stages.insert stage

/-- `add_raytracing_group_stages`. -/
def addRaytracingGroupStages (pipeline : TrackedPipeline) (groupIndex : Nat)
    (stages : List UInt32) : List UInt32 :=
  match pipeline.raytracingGroups[groupIndex]? with
  | none => stages
  | some group =>
      match group.type with
      | .general => addStage pipeline group.generalShader stages
      | _ => addStage pipeline group.intersectionShader (addStage pipeline group.anyHitShader
          (addStage pipeline group.closestHitShader stages))

/-- `find_raytracing_group_index` for the handle at a place of a memory.  The index is an `int`, and
negative ones are skipped by the caller. -/
def findRaytracingGroupIndex (pipeline : TrackedPipeline) (mem : Memory) (handle : Nat) :
    Option Nat :=
  let handleSize := pipeline.raytracingGroupHandleSize.toNat
  if handleSize = 0 then none
  else
    let groupCount := if pipeline.raytracingGroupCount = 0
      then pipeline.raytracingGroups.length % 2 ^ 32 else pipeline.raytracingGroupCount.toNat
    let maxGroups := pipeline.raytracingGroupHandles.length / handleSize
    if groupCount = 0 ∨ maxGroups = 0 then none
    else
      let groupCount := if groupCount > maxGroups then maxGroups % 2 ^ 32 else groupCount
      ((List.range groupCount).find? fun i =>
        (pipeline.raytracingGroupHandles.drop (i * handleSize)).take handleSize ==
          slice mem handle handleSize).filter fun i => i < 2 ^ 31

/-- `get_shader_group_handle_marking_subtype`. -/
def getShaderGroupHandleMarkingSubtype (pipeline : TrackedPipeline) (groupIndex : Nat) :
    ShaderGroupShader :=
  match pipeline.raytracingGroups[groupIndex]? with
  | none => .general
  | some group =>
      match group.type with
      | .general => .general
      | .trianglesHitGroup =>
          if group.closestHitShader.isSome then .closestHit
          else if group.anyHitShader.isSome then .anyHit
          else .general
      | .proceduralHitGroup =>
          if group.intersectionShader.isSome then .intersection
          else if group.closestHitShader.isSome then .closestHit
          else if group.anyHitShader.isSome then .anyHit
          else .general
      | .other => .general

/-- What the readers collect.  `visited` is not in the source: the places of the records, counted
from the start of the buffer, in the order in which they are read. -/
structure Collected where
  stages : List UInt32 := []
  discovered : Option (List DiscoveredBufferMarking) := none
  visited : List Nat := []
deriving DecidableEq

/-- One round of the loop of `collect_stages_from_sbt_region`. -/
def readRecord (pipeline : TrackedPipeline) (mapping : MappedAddressRange) (stride : UInt64)
    (collected : Collected) (i : Nat) : Collected :=
  let handle := mapping.bufferOffset.toNat + i * stride.toNat
  let collected := { collected with visited := collected.visited ++ [handle] }
  match findRaytracingGroupIndex pipeline (data.mapped mapping.bufferData) handle with
  | none => collected
  | some groupIndex =>
      { collected with
        stages := addRaytracingGroupStages pipeline groupIndex collected.stages
        discovered := collected.discovered.map fun discovered => discovered ++ [{
          bufferData := some mapping.bufferData
          offset := mapping.bufferOffset + UInt64.ofNat i * stride
          size := UInt64.ofNat pipeline.raytracingGroupHandleSize.toNat
          type := .shaderGroupHandle (getShaderGroupHandleMarkingSubtype pipeline groupIndex) }] }

/-- The stride of a region. -/
def StridedDeviceAddressRegion.recordStride (region : StridedDeviceAddressRegion) : UInt64 :=
  if region.stride = 0 then region.size else region.stride

/-- The checks in front of the mapping. -/
def TrackedPipeline.Reads (pipeline : TrackedPipeline) (region : StridedDeviceAddressRegion) :
    Prop :=
  ¬ (region.deviceAddress = 0 ∨ region.size = 0) ∧
    ¬ (pipeline.raytracingGroupHandleSize = 0 ∨ pipeline.raytracingGroupHandles = []) ∧
    ¬ (region.recordStride.toNat < pipeline.raytracingGroupHandleSize.toNat ∨
      region.size.toNat < pipeline.raytracingGroupHandleSize.toNat)

instance (pipeline : TrackedPipeline) (region : StridedDeviceAddressRegion) :
    Decidable (pipeline.Reads region) :=
  inferInstanceAs (Decidable (_ ∧ _ ∧ _))

/-- `collect_stages_from_sbt_region`. -/
def collectStagesFromSbtRegion (pipeline : TrackedPipeline) (region : StridedDeviceAddressRegion)
    (collected : Collected) : Collected :=
  if pipeline.Reads region then
    match mapDeviceAddressRange data region.deviceAddress region.size with
    | none => collected
    | some mapping =>
        let recordCount := (region.size / region.recordStride).toUInt32
        (List.range recordCount.toNat).foldl (readRecord data pipeline mapping region.recordStride)
          collected
  else collected

/-- `sizeof(VkAccelerationStructureInstanceKHR)`. -/
def instanceSize : Nat := 64

/-- `offsetof(VkAccelerationStructureInstanceKHR, accelerationStructureReference)`. -/
def referenceOffset : Nat := 56

/-- One round of the loop of `collect_acceleration_structure_instance_markings`. -/
def readInstance (mapping : MappedAddressRange) (collected : Collected) (i : Nat) : Collected :=
  let place := mapping.bufferOffset.toNat + i * instanceSize
  let collected := { collected with visited := collected.visited ++ [place] }
  let reference := LittleEndian.decode
    (slice (data.mapped mapping.bufferData) (place + referenceOffset) 8)
  if reference = 0 then collected
  else
    { collected with
      discovered := collected.discovered.map fun discovered => discovered ++ [{
        bufferData := some mapping.bufferData
        offset := mapping.bufferOffset + UInt64.ofNat (i * instanceSize) +
          UInt64.ofNat referenceOffset
        size := 8
        type := .deviceAddress .accelerationStructure }] }

/-- The bytes of instances. -/
def instancesSize (primitiveCount : UInt32) : UInt64 :=
  UInt64.ofNat primitiveCount.toNat * UInt64.ofNat instanceSize

/-- `collect_acceleration_structure_instance_markings`. -/
def collectAccelerationStructureInstanceMarkings (address primitiveOffset : UInt64)
    (primitiveCount : UInt32) (collected : Collected) : Collected :=
  if address = 0 ∨ primitiveCount = 0 then collected
  else
    match mapDeviceAddressRange data (address + primitiveOffset) (instancesSize primitiveCount) with
    | none => collected
    | some mapping =>
        (List.range primitiveCount.toNat).foldl (readInstance data mapping) collected

end

/-! ### Places of addresses -/

section

variable {data : ExecutionData} {address size : UInt64} {obj : Pointer} {offset : Nat}

/-- An address lies in a buffer, so many bytes behind its start. -/
def At (data : ExecutionData) (address : UInt64) (obj : Pointer) (offset : Nat) : Prop :=
  ∃ base, data.deviceAddressRemapping.findCandidate data.heap address.toNat = some (obj, base) ∧
    offset = address.toNat - base ∧ data.isBuffer obj = true ∧
    data.deviceAddressRemapping.translateAddress data.heap address.toNat ≠ 0

/-- The object that is found holds the address. -/
theorem findCandidate_spec {r : Remapper} {heap : Heap} {stored base : Nat}
    (hfound : r.findCandidate heap stored = some (obj, base)) :
    obj ≠ 0 ∧ base ≤ stored ∧ stored - base < (heap obj).size := by
  unfold Remapper.findCandidate at hfound
  obtain ⟨e, hmem, hround⟩ := List.exists_of_findSome?_eq_some hfound
  simp only at hround
  split_ifs at hround with hnull
  obtain ⟨rfl, rfl⟩ := Prod.mk.inj (Option.some.inj hround)
  have hle := (OrderedMap.mem_downFrom_iff.mp hmem).2
  rcases chooseBest_spec heap e.2 e.1 stored with ⟨hzero, -⟩ | ⟨-, heligible, -⟩
  · exact absurd hzero hnull
  · exact ⟨hnull, hle, heligible.2.2⟩

theorem At.lt (hat : At data address obj offset) : offset < (data.heap obj).size := by
  obtain ⟨base, hfound, rfl, -, -⟩ := hat
  exact (findCandidate_spec hfound).2.2

/-- The translation takes the address to the same offset in the buffer. -/
theorem translated_sub {r : Remapper} {heap : Heap} {stored base : Nat}
    (hfound : r.findCandidate heap stored = some (obj, base))
    (htranslated : r.translateAddress heap stored ≠ 0) :
    UInt64.ofNat (r.translateAddress heap stored) - UInt64.ofNat (heap obj).deviceAddress =
      UInt64.ofNat (stored - base) := by
  unfold Remapper.translateAddress at htranslated ⊢
  simp only [hfound] at htranslated ⊢
  split_ifs at htranslated ⊢ with hdevice
  · exact absurd rfl htranslated
  · have hmod : UInt64.ofNat (((heap obj).deviceAddress + (stored - base)) % 2 ^ 64) =
        UInt64.ofNat ((heap obj).deviceAddress + (stored - base)) :=
      UInt64.toNat_inj.mp (by simp)
    rw [hmod, UInt64.ofNat_add, UInt64.add_comm, UInt64.add_sub_cancel]

theorem add_gt_iff {bound : Nat} (hoffset : offset < 2 ^ 64) (hbound : bound < 2 ^ 64) :
    UInt64.ofNat offset + size > UInt64.ofNat bound ↔
      ¬ (offset + size.toNat) % 2 ^ 64 ≤ bound := by
  show UInt64.ofNat bound < UInt64.ofNat offset + size ↔ _
  rw [UInt64.lt_iff_toNat_lt, UInt64.toNat_add, UInt64.toNat_ofNat_of_lt' hoffset,
    UInt64.toNat_ofNat_of_lt' hbound, not_le]

/-- **What is mapped.**  The address lies in a buffer, and the 64-bit sum of its offset and the size
is not behind the end of the buffer. -/
theorem map_eq_some_iff {mapping : MappedAddressRange} :
    mapDeviceAddressRange data address size = some mapping ↔
      address ≠ 0 ∧ size ≠ 0 ∧ ∃ obj offset, At data address obj offset ∧
        (offset + size.toNat) % 2 ^ 64 ≤ (data.heap obj).size ∧
        mapping = ⟨size, UInt64.ofNat offset, obj⟩ := by
  unfold mapDeviceAddressRange At
  -- only the last buffer at or below the address is looked at
  cases hfound : data.deviceAddressRemapping.findCandidate data.heap address.toNat with
  | none =>
      have hget : data.deviceAddressRemapping.getByAddress data.heap address.toNat = 0 := by
        rw [Remapper.getByAddress, hfound]
      simp [hget]
  | some found =>
      obtain ⟨obj, base⟩ := found
      have hget : data.deviceAddressRemapping.getByAddress data.heap address.toNat = obj := by
        rw [Remapper.getByAddress, hfound]
      obtain ⟨hnull, -, hlt⟩ := findCandidate_spec hfound
      have hsize := data.size_lt obj
      simp only [hget, hnull, false_or]
      constructor
      · intro hmap
        split_ifs at hmap with hzero hbuffer htranslated hbound
        rw [translated_sub hfound htranslated] at hmap hbound
        rw [add_gt_iff (by omega) hsize, not_not] at hbound
        obtain ⟨haddress, hpositive⟩ := not_or.mp hzero
        exact ⟨haddress, hpositive, obj, address.toNat - base, ⟨base, rfl, rfl,
          Bool.of_not_eq_false hbuffer, htranslated⟩, hbound, (Option.some.inj hmap).symm⟩
      · rintro ⟨haddress, hpositive, other, offset, ⟨base', hsame, rfl, hbuffer, htranslated⟩,
          hbound, rfl⟩
        obtain ⟨rfl, rfl⟩ := Prod.mk.inj (Option.some.inj hsame)
        rw [if_neg (not_or.mpr ⟨haddress, hpositive⟩), if_neg (by rw [hbuffer]; simp),
          if_neg htranslated, translated_sub hfound htranslated, if_neg]
        rw [add_gt_iff (by omega) hsize, not_not]
        exact hbound

/-! ### What stays inside -/

/-- A range that is mapped lies in its buffer. -/
def MapsInside (data : ExecutionData) (address size : UInt64) : Prop :=
  ∀ mapping, mapDeviceAddressRange data address size = some mapping →
    mapping.bufferOffset.toNat + size.toNat ≤ (data.heap mapping.bufferData).size

/-- The range of an address in a buffer does not leave the 64-bit numbers. -/
def FitsWord (data : ExecutionData) (address size : UInt64) : Prop :=
  ∀ obj offset, At data address obj offset → offset + size.toNat < 2 ^ 64

/-- A range of so many bytes at an offset is mapped if it ends in the buffer, and also if its end
leaves the 64-bit numbers. -/
theorem map_of_at (hat : At data address obj offset) (haddress : address ≠ 0) (hsize : size ≠ 0)
    (hmapped : offset + size.toNat ≤ (data.heap obj).size ∨ 2 ^ 64 ≤ offset + size.toNat) :
    mapDeviceAddressRange data address size = some ⟨size, UInt64.ofNat offset, obj⟩ := by
  have hlt := hat.lt
  have hbound := data.size_lt obj
  have hword := size.toNat_lt
  rw [map_eq_some_iff]
  refine ⟨haddress, hsize, obj, offset, hat, ?_, rfl⟩
  rcases hmapped with h | h
  · exact (Nat.mod_le _ _).trans h
  · rw [Nat.mod_eq_sub_mod h, Nat.mod_eq_of_lt (by omega)]
    omega

/-- **A mapped range** lies in its buffer exactly if it does not leave the 64-bit numbers. -/
theorem mapsInside_iff : MapsInside data address size ↔ FitsWord data address size := by
  constructor
  · intro hinside obj offset hat
    by_contra hwraps
    have hlt := hat.lt
    have hbound := data.size_lt obj
    have hword := size.toNat_lt
    have hsize : size ≠ 0 := by
      rintro rfl
      rw [UInt64.toNat_zero] at hwraps
      omega
    have haddress : address ≠ 0 := by
      rintro rfl
      obtain ⟨base, -, rfl, -, -⟩ := hat
      rw [UInt64.toNat_zero, Nat.zero_sub] at hwraps
      omega
    have hthere := hinside _ (map_of_at hat haddress hsize (Or.inr (not_lt.mp hwraps)))
    simp only at hthere
    rw [UInt64.toNat_ofNat_of_lt' (by show _ < 2 ^ 64; omega)] at hthere
    omega
  · intro hfits mapping hmap
    rw [map_eq_some_iff] at hmap
    obtain ⟨-, -, obj, offset, hat, hbound, rfl⟩ := hmap
    have hlt := hat.lt
    have hsize := data.size_lt obj
    rw [Nat.mod_eq_of_lt (hfits obj offset hat)] at hbound
    rwa [UInt64.toNat_ofNat_of_lt' (by show _ < 2 ^ 64; omega)]

/-! ### What is read -/

theorem foldl_visited {f : Collected → Nat → Collected} {place : Nat → Nat}
    (hround : ∀ collected i, (f collected i).visited = collected.visited ++ [place i])
    (l : List Nat) (collected : Collected) :
    (l.foldl f collected).visited = collected.visited ++ l.map place := by
  induction l generalizing collected with
  | nil => simp
  | cons i l ih => rw [List.foldl_cons, ih, hround, List.map_cons, List.append_assoc,
      List.singleton_append]

theorem readRecord_visited {pipeline : TrackedPipeline} {mapping : MappedAddressRange}
    {stride : UInt64} (collected : Collected) (i : Nat) :
    (readRecord data pipeline mapping stride collected i).visited =
      collected.visited ++ [mapping.bufferOffset.toNat + i * stride.toNat] := by
  unfold readRecord
  simp only
  split <;> rfl

theorem readInstance_visited {mapping : MappedAddressRange} (collected : Collected) (i : Nat) :
    (readInstance data mapping collected i).visited =
      collected.visited ++ [mapping.bufferOffset.toNat + i * instanceSize] := by
  unfold readInstance
  simp only
  split_ifs <;> rfl

/-- The range of a table, or of instances, lies in its buffer; so does every record that is read,
and all complete records are read, each of them once. -/
def ReadOnce (data : ExecutionData) (mapping : MappedAddressRange)
    (size stride recordSize : Nat) (visited : List Nat) : Prop :=
  mapping.bufferOffset.toNat + size ≤ (data.heap mapping.bufferData).size ∧
    (∀ place ∈ visited, place + recordSize ≤ (data.heap mapping.bufferData).size) ∧
    visited.Perm ((List.range (size / stride)).map fun i =>
      mapping.bufferOffset.toNat + i * stride)

/-- Records that are read in order are read once. -/
theorem readOnce_of_inside {mapping : MappedAddressRange} {size stride recordSize : Nat}
    (hinside : mapping.bufferOffset.toNat + size ≤ (data.heap mapping.bufferData).size)
    (hrecord : recordSize ≤ stride) :
    ReadOnce data mapping size stride recordSize
      ((List.range (size / stride)).map fun i => mapping.bufferOffset.toNat + i * stride) := by
  refine ⟨hinside, fun place hplace => ?_, List.Perm.refl _⟩
  obtain ⟨i, hi, rfl⟩ := List.mem_map.mp hplace
  have hnext : (i + 1) * stride ≤ size :=
    (Nat.mul_le_mul_right stride (List.mem_range.mp hi)).trans (Nat.div_mul_le_self size stride)
  rw [Nat.succ_mul] at hnext
  omega

/-- A table that is read. -/
def TableReadOnce (data : ExecutionData) (pipeline : TrackedPipeline)
    (region : StridedDeviceAddressRegion) : Prop :=
  pipeline.Reads region → ∀ mapping,
    mapDeviceAddressRange data region.deviceAddress region.size = some mapping →
      ∀ collected : Collected, ReadOnce data mapping region.size.toNat region.recordStride.toNat
        pipeline.raytracingGroupHandleSize.toNat
        (collectStagesFromSbtRegion data pipeline region { collected with visited := [] }).visited

/-- The range of the region does not leave the 64-bit numbers, and one that lies in its buffer has
not more records than 32 bits can count. -/
def TableFits (data : ExecutionData) (pipeline : TrackedPipeline)
    (region : StridedDeviceAddressRegion) : Prop :=
  pipeline.Reads region → FitsWord data region.deviceAddress region.size ∧
    ∀ obj offset, At data region.deviceAddress obj offset →
      offset + region.size.toNat ≤ (data.heap obj).size →
        region.size.toNat / region.recordStride.toNat < 2 ^ 32

variable {pipeline : TrackedPipeline} {region : StridedDeviceAddressRegion}
variable {mapping : MappedAddressRange}

/-- What is visited in a table. -/
theorem sbt_visited (hreads : pipeline.Reads region)
    (hmap : mapDeviceAddressRange data region.deviceAddress region.size = some mapping)
    (collected : Collected) :
    (collectStagesFromSbtRegion data pipeline region { collected with visited := [] }).visited =
      (List.range (region.size.toNat / region.recordStride.toNat % 2 ^ 32)).map fun i =>
        mapping.bufferOffset.toNat + i * region.recordStride.toNat := by
  rw [collectStagesFromSbtRegion, if_pos hreads, hmap]
  simp only
  rw [foldl_visited readRecord_visited, List.nil_append, UInt64.toNat_toUInt32, UInt64.toNat_div]

/-- **Tables.** -/
theorem tableReadOnce_iff :
    TableReadOnce data pipeline region ↔ TableFits data pipeline region := by
  constructor
  · intro hread hreads
    obtain ⟨haddress, hsize⟩ := not_or.mp hreads.1
    refine ⟨mapsInside_iff.mp fun mapping hmap => (hread hreads mapping hmap {}).1,
      fun obj offset hat hinside => ?_⟩
    have hmap := map_of_at hat haddress hsize (Or.inl hinside)
    obtain ⟨-, -, hperm⟩ := hread hreads _ hmap {}
    have hlength := hperm.length_eq
    rw [sbt_visited hreads hmap, List.length_map, List.length_map, List.length_range,
      List.length_range] at hlength
    rw [← hlength]
    exact Nat.mod_lt _ (by norm_num)
  · intro hfits hreads mapping hmap collected
    obtain ⟨hword, hfew⟩ := hfits hreads
    have hinside := mapsInside_iff.mpr hword mapping hmap
    obtain ⟨-, -, obj, offset, hat, -, rfl⟩ := map_eq_some_iff.mp hmap
    have hcount := hfew obj offset hat (by
      have hlt := hat.lt
      have hbound := data.size_lt obj
      rwa [UInt64.toNat_ofNat_of_lt' (by show _ < 2 ^ 64; omega)] at hinside)
    rw [sbt_visited hreads hmap, Nat.mod_eq_of_lt hcount]
    exact readOnce_of_inside hinside (not_lt.mp (not_or.mp hreads.2.2).1)

/-- Instances that are read. -/
def InstancesReadOnce (data : ExecutionData) (address primitiveOffset : UInt64)
    (primitiveCount : UInt32) : Prop :=
  address ≠ 0 → ∀ mapping, mapDeviceAddressRange data (address + primitiveOffset)
      (instancesSize primitiveCount) = some mapping → ∀ collected : Collected,
    ReadOnce data mapping (instancesSize primitiveCount).toNat instanceSize instanceSize
      (collectAccelerationStructureInstanceMarkings data address primitiveOffset primitiveCount
        { collected with visited := [] }).visited

theorem toNat_instancesSize (primitiveCount : UInt32) :
    (instancesSize primitiveCount).toNat = primitiveCount.toNat * instanceSize := by
  have hlt := primitiveCount.toNat_lt
  unfold instancesSize instanceSize
  rw [UInt64.toNat_mul, UInt64.toNat_ofNat_of_lt' (by show _ < 2 ^ 64; omega)]
  exact Nat.mod_eq_of_lt (by show _ * 64 < _; omega)

/-- **Instances.** -/
theorem instancesReadOnce_iff {primitiveOffset : UInt64} {primitiveCount : UInt32} :
    InstancesReadOnce data address primitiveOffset primitiveCount ↔
      (address ≠ 0 → FitsWord data (address + primitiveOffset) (instancesSize primitiveCount)) := by
  constructor
  · intro hread haddress
    exact mapsInside_iff.mp fun mapping hmap => (hread haddress mapping hmap {}).1
  · intro hfits haddress mapping hmap collected
    have hinside := mapsInside_iff.mpr (hfits haddress) mapping hmap
    have hcount : primitiveCount ≠ 0 := by
      rintro rfl
      exact (map_eq_some_iff.mp hmap).2.1 rfl
    have hvisited : (collectAccelerationStructureInstanceMarkings data address primitiveOffset
        primitiveCount { collected with visited := [] }).visited =
          (List.range primitiveCount.toNat).map fun i =>
            mapping.bufferOffset.toNat + i * instanceSize := by
      rw [collectAccelerationStructureInstanceMarkings,
        if_neg (not_or.mpr ⟨haddress, hcount⟩), hmap]
      exact (foldl_visited readInstance_visited _ _).trans (List.nil_append _)
    have hrecords : (instancesSize primitiveCount).toNat / instanceSize = primitiveCount.toNat := by
      rw [toNat_instancesSize]
      exact Nat.mul_div_cancel _ (by decide)
    rw [hvisited, ← hrecords]
    exact readOnce_of_inside hinside le_rfl

/-- **Ranges stay inside.**  A mapped range lies in its buffer exactly if it does not leave the
64-bit numbers.  The records of tables and instances are then read inside of it, each once, exactly
if 32 bits can count them. -/
theorem ranges_stay_inside_iff (data : ExecutionData) :
    (∀ address size, MapsInside data address size ↔ FitsWord data address size) ∧
      (∀ pipeline region, TableReadOnce data pipeline region ↔ TableFits data pipeline region) ∧
      ∀ address primitiveOffset primitiveCount,
        InstancesReadOnce data address primitiveOffset primitiveCount ↔
          (address ≠ 0 →
            FitsWord data (address + primitiveOffset) (instancesSize primitiveCount)) :=
  ⟨fun _ _ => mapsInside_iff, fun _ _ => tableReadOnce_iff, fun _ _ _ => instancesReadOnce_iff⟩

end

/-- A buffer of 64 bytes, captured at one address and replayed at another. -/
def oneBuffer : ExecutionData where
  deviceAddressRemapping := ({} : Remapper).add 4096 1
  heap := fun _ => { state := .bound, size := 64, deviceAddress := 8192 }
  size_lt := fun _ => by norm_num
  isBuffer := fun _ => true
  mapped := fun _ => zeroed

/-- The end of a range wraps to a place in the buffer. -/
theorem wrapped_range_mapped :
    ¬ ∀ (data : ExecutionData) (address size : UInt64), MapsInside data address size := by
  intro hall
  have hmap : mapDeviceAddressRange oneBuffer 4112 0xfffffffffffffff8 =
      some ⟨0xfffffffffffffff8, 16, 1⟩ := by decide
  have hinside := hall oneBuffer 4112 0xfffffffffffffff8 _ hmap
  exact absurd hinside (by decide)

end DeviceAddressRanges
end Lavatube
