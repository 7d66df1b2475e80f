import Lavatube.TouchedMap

/-!
# What acceleration structure builds touch

A build reads its geometry through device addresses.  The tracer makes a range of addresses of each
input, looks for a buffer that has it, and touches the bytes of this buffer; where no buffer has the
whole range it takes the one that has the first byte, and cuts the range to it.

* `findBufferByDeviceAddress`, `touchBufferByAddress`, `postCmdBuildAccelerationStructures` — the
  tracer.
* `preferred`, `findBufferByDeviceAddress_eq` — which of the buffers is taken.
* `Geometry.Reads` — the addresses that a build reads; `Geometry.spans` — the ranges of its inputs.
* `build_touches_iff` — when all that is read is touched.
-/

namespace Lavatube
namespace AccelerationBuild

open TouchedMap RangeTracking Transition

/-! ## Buffers -/

/-- The part of a `trackedbuffer` that is read; `live` is neither destroyed nor uninitialized.  No
range of addresses goes around the end of the address space. -/
structure Buffer where
  deviceAddress : Nat
  object : TrackedObject
  live : Bool
  shaderBindingTable : Bool
  address_lt : deviceAddress + object.size < 2 ^ 64

/-- The tests of `find_buffer_by_device_address`. -/
def Buffer.candidate (b : Buffer) (address size : Nat) : Bool :=
  b.live && b.deviceAddress != 0 && b.object.size != 0 && decide (b.deviceAddress ≤ address) &&
    decide (address - b.deviceAddress ≤ b.object.size) &&
    decide (size ≤ b.object.size - (address - b.deviceAddress))

/-- The buffer takes the place of the best one so far. -/
def Buffer.better (b best : Buffer) : Bool :=
  (b.shaderBindingTable && !best.shaderBindingTable) ||
    (b.shaderBindingTable == best.shaderBindingTable && decide (b.object.size < best.object.size))

/-- `find_buffer_by_device_address`: the best buffer and its place. -/
def findBufferByDeviceAddress (records : List Buffer) (address size : Nat) :
    Option (Buffer × Nat) :=
  records.zipIdx.foldl (fun best entry =>
    if entry.1.candidate address size then
      match best with
      | none => some entry
      | some taken => if entry.1.better taken.1 then some entry else best
    else best) none

/-- The objects of the buffers, by their places. -/
def objects (records : List Buffer) (data : Nat) : TrackedObject :=
  ((records[data]?).map Buffer.object).getD ⟨0, false, by decide⟩

/-- An address and a number of bytes that are looked up. -/
structure Lookup where
  address : Nat
  size : Nat
deriving DecidableEq, Repr

/-- `trace_touch_buffer_by_address`; `none` is the abort for an address without buffer. -/
def touchBufferByAddress (records : List Buffer) (touched : Touched) (lookup : Lookup) :
    Option Touched :=
  if lookup.address = 0 then some touched
  else
    let whole := findBufferByDeviceAddress records lookup.address
      (if lookup.size = 0 then 1 else lookup.size)
    let found :=
      if whole = none ∧ lookup.size > 1 then findBufferByDeviceAddress records lookup.address 1
      else whole
    found.bind fun (b, data) =>
      let offset := lookup.address - b.deviceAddress
      let touchSize :=
        if lookup.size = 0 then wholeSize
        else if lookup.size > b.object.size - offset then b.object.size - offset
        else lookup.size
      touch (objects records) touched ⟨data, offset, touchSize⟩

/-! ## Builds -/

/-- `VkAccelerationStructureBuildRangeInfoKHR`. -/
structure BuildRange where
  primitiveCount : Nat
  primitiveOffset : Nat
  firstVertex : Nat
  transformOffset : Nat
  primitiveCount_lt : primitiveCount < 2 ^ 32
  primitiveOffset_lt : primitiveOffset < 2 ^ 32
  transformOffset_lt : transformOffset < 2 ^ 32

/-- `VkIndexType`. -/
inductive IndexType where
  | none
  | uint8
  | uint16
  | uint32
deriving DecidableEq, Repr

/-- The bytes of an index. -/
def IndexType.size : IndexType → Nat
  | .none => 0
  | .uint8 => 1
  | .uint16 => 2
  | .uint32 => 4

/-- `VkAccelerationStructureGeometryTrianglesDataKHR`, with the bytes of a vertex and the indices
that the build finds in the index buffer.  The stride is at most `2 ^ 32 - 1` by valid usage. -/
structure Triangles where
  vertexSize : Nat
  vertexData : Nat
  vertexStride : Nat
  maxVertex : Nat
  indexType : IndexType
  indexData : Nat
  index : Nat → Nat
  transformData : Nat
  maxVertex_lt : maxVertex < 2 ^ 32
  vertexStride_lt : vertexStride < 2 ^ 32

/-- `VkAccelerationStructureGeometryAabbsDataKHR`. -/
structure Aabbs where
  data : Nat
  stride : Nat
  stride_lt : stride < 2 ^ 32

/-- `VkAccelerationStructureGeometryKHR`. -/
inductive Geometry where
  | triangles (triangles : Triangles)
  | aabbs (aabbs : Aabbs)
  | instances (arrayOfPointers : Bool) (data : Nat)
  | other

/-- `VkAccelerationStructureBuildGeometryInfoKHR` and its ranges; both are arrays, of pointers and
of ranges, that may be null. -/
structure BuildInfo where
  geometries : List (Option Geometry)
  ranges : Option (Nat → BuildRange)

/-- The geometries of a build, each with its range. -/
def BuildInfo.parts (info : BuildInfo) : List (Geometry × Option BuildRange) :=
  info.geometries.zipIdx.filterMap fun (geometry, g) =>
    geometry.map fun geometry => (geometry, info.ranges.map fun ranges => ranges g)

/-- What is looked up for the vertices; the number of vertices is a 32-bit sum. -/
def Triangles.vertexLookups (t : Triangles) : List Lookup :=
  if t.vertexData ≠ 0 ∧ t.vertexStride > 0 then
    [⟨t.vertexData, (t.maxVertex + 1) % 2 ^ 32 * t.vertexStride % 2 ^ 64⟩]
  else []

/-- What is looked up for the indices. -/
def Triangles.indexLookups (t : Triangles) (range : Option BuildRange) : List Lookup :=
  if t.indexData ≠ 0 ∧ t.indexType ≠ .none then
    match range with
    | some range =>
        [⟨(t.indexData + range.primitiveOffset) % 2 ^ 64,
          range.primitiveCount * 3 * t.indexType.size % 2 ^ 64⟩]
    | none => [⟨t.indexData, 0⟩]
  else []

/-- What is looked up for the transform: a `VkTransformMatrixKHR`. -/
def Triangles.transformLookups (t : Triangles) (range : Option BuildRange) : List Lookup :=
  if t.transformData ≠ 0 then
    match range with
    | some range => [⟨(t.transformData + range.transformOffset) % 2 ^ 64, 48⟩]
    | none => [⟨t.transformData, 48⟩]
  else []

/-- What is looked up for a geometry; `none` is the abort for instances behind pointers. -/
def Geometry.lookups (range : Option BuildRange) : Geometry → Option (List Lookup)
  | .triangles t =>
      some (t.vertexLookups ++ t.indexLookups range ++ t.transformLookups range)
  | .aabbs a =>
      match range with
      | some range =>
          if a.stride > 0 then
            some [⟨(a.data + range.primitiveOffset) % 2 ^ 64,
              range.primitiveCount * a.stride % 2 ^ 64⟩]
          else some [⟨a.data, 0⟩]
      | none => some [⟨a.data, 0⟩]
  | .instances true _ => none
  | .instances false data =>
      match range with
      | some range =>
          some [⟨(data + range.primitiveOffset) % 2 ^ 64, range.primitiveCount * 64 % 2 ^ 64⟩]
      | none => some [⟨data, 0⟩]
  | .other => some []

/-- One round of the loop over the geometries. -/
def buildGeometry (records : List Buffer) (touched : Touched)
    (part : Geometry × Option BuildRange) : Option Touched :=
  (part.1.lookups part.2).bind (exec (touchBufferByAddress records) touched)

/-- `trace_post_vkCmdBuildAccelerationStructuresKHR`. -/
def postCmdBuildAccelerationStructures (records : List Buffer) (touched : Touched)
    (infos : List BuildInfo) : Option Touched :=
  exec (buildGeometry records) touched (infos.flatMap BuildInfo.parts)

/-! ## Which buffer is taken -/

/-- Shader binding tables come first, then smaller buffers. -/
def Buffer.rank (b : Buffer) : Nat :=
  (if b.shaderBindingTable then 0 else 2 ^ 64) + b.object.size

/-- The first one of the best buffers that have the bytes. -/
def preferred (records : List Buffer) (address size : Nat) : Option (Buffer × Nat) :=
  (records.zipIdx.filter fun entry => entry.1.candidate address size).argmin
    fun entry => entry.1.rank

theorem Buffer.better_iff (b best : Buffer) : b.better best = true ↔ b.rank < best.rank := by
  have hb := b.object.size_lt
  have hbest := best.object.size_lt
  unfold Buffer.better Buffer.rank
  cases b.shaderBindingTable <;> cases best.shaderBindingTable <;> simp <;> omega

/-- **The search is a minimum.** -/
theorem findBufferByDeviceAddress_eq (records : List Buffer) (address size : Nat) :
    findBufferByDeviceAddress records address size = preferred records address size := by
  unfold findBufferByDeviceAddress preferred
  induction records.zipIdx using List.reverseRecOn with
  | nil => rfl
  | append_singleton entries entry ih =>
      rw [List.foldl_append, ih, List.foldl_cons, List.foldl_nil, List.filter_append,
        List.filter_singleton]
      cases hcandidate : entry.1.candidate address size with
      | false => simp
      | true =>
          simp only [if_true, cond_true]
          rw [List.argmin_concat]
          cases (entries.filter fun entry => entry.1.candidate address size).argmin
            fun entry => entry.1.rank with
          | none => rfl
          | some taken => simp only [Buffer.better_iff]

/-- The address lies in the buffer. -/
def Buffer.Has (b : Buffer) (address : Nat) : Prop :=
  b.live = true ∧ b.deviceAddress ≠ 0 ∧ b.deviceAddress ≤ address ∧
    address < b.deviceAddress + b.object.size

variable {records : List Buffer} {b : Buffer} {data address size : Nat}

theorem Buffer.candidate_iff : b.candidate address size = true ↔
    b.live = true ∧ b.deviceAddress ≠ 0 ∧ b.object.size ≠ 0 ∧ b.deviceAddress ≤ address ∧
      address + size ≤ b.deviceAddress + b.object.size := by
  unfold Buffer.candidate
  simp only [Bool.and_eq_true, bne_iff_ne, decide_eq_true_eq]
  constructor
  · rintro ⟨⟨⟨⟨⟨hlive, haddress⟩, hsize⟩, hle⟩, hoffset⟩, hfits⟩
    exact ⟨hlive, haddress, hsize, hle, by omega⟩
  · rintro ⟨hlive, haddress, hsize, hle, hfits⟩
    exact ⟨⟨⟨⟨⟨hlive, haddress⟩, hsize⟩, hle⟩, by omega⟩, by omega⟩

theorem Buffer.candidate_one : b.candidate address 1 = true ↔ b.Has address := by
  rw [Buffer.candidate_iff]
  unfold Buffer.Has
  constructor
  · rintro ⟨hlive, haddress, -, hle, hfits⟩
    exact ⟨hlive, haddress, hle, by omega⟩
  · rintro ⟨hlive, haddress, hle, hlt⟩
    exact ⟨hlive, haddress, by omega, hle, by omega⟩

theorem preferred_some (h : preferred records address size = some (b, data)) :
    records[data]? = some b ∧ b.candidate address size = true := by
  have hmem := List.mem_filter.mp (List.argmin_mem h)
  exact ⟨List.mem_zipIdx_iff_getElem?.mp hmem.1, hmem.2⟩

theorem preferred_eq_none_iff :
    preferred records address size = none ↔
      ∀ b ∈ records, b.candidate address size = false := by
  unfold preferred
  rw [List.argmin_eq_none, List.filter_eq_nil_iff]
  constructor
  · intro hnone b hb
    obtain ⟨i, hi⟩ := List.getElem?_of_mem hb
    simpa using hnone (b, i) (List.mem_zipIdx_iff_getElem?.mpr hi)
  · intro hnone entry hentry
    have hb := List.mem_of_getElem? (List.mem_zipIdx_iff_getElem?.mp hentry)
    simpa using hnone entry.1 hb

theorem objects_eq (h : records[data]? = some b) : objects records data = b.object := by
  unfold objects
  rw [h]
  rfl

/-! ## What one lookup touches -/

/-- The buffer that is taken: one with all bytes if there is one, else one with the first byte. -/
def Lookup.taken (records : List Buffer) (lookup : Lookup) : Option (Buffer × Nat) :=
  if 0 < lookup.size ∧ (preferred records lookup.address lookup.size).isSome then
    preferred records lookup.address lookup.size
  else preferred records lookup.address 1

/-- The end of the addresses that are touched. -/
def Lookup.stop (records : List Buffer) (lookup : Lookup) : Nat :=
  if 0 < lookup.size ∧ (preferred records lookup.address lookup.size).isSome then
    lookup.address + lookup.size
  else
    match preferred records lookup.address 1 with
    | some (b, _) => b.deviceAddress + b.object.size
    | none => lookup.address

/-- The address is one of those that are touched. -/
def Lookup.Spans (records : List Buffer) (lookup : Lookup) (address : Nat) : Prop :=
  lookup.address ≠ 0 ∧ lookup.address ≤ address ∧ address < lookup.stop records

/-- There is nothing to look up, or a live buffer has the address. -/
def Lookup.Found (records : List Buffer) (lookup : Lookup) : Prop :=
  lookup.address = 0 ∨ ∃ b ∈ records, b.Has lookup.address

/-- Byte `x` of a buffer is touched. -/
def Lookup.Touches (records : List Buffer) (lookup : Lookup) (item : Nat × Nat) : Prop :=
  ∃ b, lookup.taken records = some (b, item.1) ∧ b.object.accessible = true ∧
    lookup.Spans records (b.deviceAddress + item.2)

variable {lookup : Lookup} {touched : Touched}

/-- The buffer that is taken has the first byte, and the touched addresses. -/
theorem Lookup.taken_some (h : lookup.taken records = some (b, data)) :
    records[data]? = some b ∧ b.Has lookup.address ∧
      lookup.address < lookup.stop records ∧
        lookup.stop records ≤ b.deviceAddress + b.object.size := by
  unfold Lookup.taken at h
  unfold Lookup.stop
  split_ifs at h ⊢ with hwhole
  · obtain ⟨hplace, hcandidate⟩ := preferred_some h
    obtain ⟨hlive, haddress, -, hle, hfits⟩ := Buffer.candidate_iff.mp hcandidate
    exact ⟨hplace, ⟨hlive, haddress, hle, by omega⟩, by omega, hfits⟩
  · obtain ⟨hplace, hcandidate⟩ := preferred_some h
    have hhas := Buffer.candidate_one.mp hcandidate
    rw [h]
    exact ⟨hplace, hhas, hhas.2.2.2, le_rfl⟩

/-- The addresses end with the range, or with the buffer where that has not all of them. -/
theorem Lookup.stop_eq (h : lookup.taken records = some (b, data)) :
    lookup.stop records =
      if 0 < lookup.size ∧ lookup.address + lookup.size ≤ b.deviceAddress + b.object.size then
        lookup.address + lookup.size
      else b.deviceAddress + b.object.size := by
  unfold Lookup.taken at h
  unfold Lookup.stop
  split_ifs at h ⊢ with hwhole hfits hfits
  · rfl
  · -- the buffer was found with all bytes
    obtain ⟨-, hcandidate⟩ := preferred_some h
    obtain ⟨-, -, -, -, hinside⟩ := Buffer.candidate_iff.mp hcandidate
    exact absurd ⟨hwhole.1, hinside⟩ hfits
  · -- the buffer has all bytes, so there was one to be found
    obtain ⟨hplace, hcandidate⟩ := preferred_some h
    obtain ⟨hlive, haddress, hsize, hle, -⟩ := Buffer.candidate_iff.mp hcandidate
    refine absurd ⟨hfits.1, ?_⟩ hwhole
    rw [Option.isSome_iff_ne_none]
    intro hnone
    have hfalse := preferred_eq_none_iff.mp hnone b (List.mem_of_getElem? hplace)
    rw [Buffer.candidate_iff.mpr ⟨hlive, haddress, hsize, hle, hfits.2⟩] at hfalse
    cases hfalse
  · rw [h]

theorem Lookup.exists_taken (h : ∃ b ∈ records, b.Has lookup.address) :
    ∃ b data, lookup.taken records = some (b, data) := by
  unfold Lookup.taken
  split_ifs with hwhole
  · obtain ⟨⟨b, data⟩, hsome⟩ := Option.isSome_iff_exists.mp hwhole.2
    exact ⟨b, data, hsome⟩
  · obtain ⟨b, hb, hhas⟩ := h
    cases hnone : preferred records lookup.address 1 with
    | some entry => exact ⟨entry.1, entry.2, rfl⟩
    | none =>
        have := preferred_eq_none_iff.mp hnone b hb
        rw [Buffer.candidate_one.mpr hhas] at this
        cases this

/-- The two searches of the code take the buffer. -/
theorem found_eq_taken (lookup : Lookup) :
    (if findBufferByDeviceAddress records lookup.address
          (if lookup.size = 0 then 1 else lookup.size) = none ∧ lookup.size > 1 then
        findBufferByDeviceAddress records lookup.address 1
      else findBufferByDeviceAddress records lookup.address
        (if lookup.size = 0 then 1 else lookup.size)) = lookup.taken records := by
  simp only [findBufferByDeviceAddress_eq]
  unfold Lookup.taken
  by_cases hzero : lookup.size = 0
  · rw [if_pos hzero, if_neg (by omega), if_neg (by omega)]
  · rw [if_neg hzero]
    cases hwhole : preferred records lookup.address lookup.size with
    | some entry => simp [Nat.pos_of_ne_zero hzero]
    | none =>
        by_cases hone : lookup.size = 1
        · rw [hone] at hwhole
          simp [hone, hwhole]
        · rw [if_pos ⟨rfl, by omega⟩, if_neg (by simp)]

/-- The call of `touch` for the buffer that is taken. -/
def Lookup.toTouch (lookup : Lookup) (b : Buffer) (data : Nat) : Touch :=
  ⟨data, lookup.address - b.deviceAddress,
    if lookup.size = 0 then wholeSize
    else if lookup.size > b.object.size - (lookup.address - b.deviceAddress) then
      b.object.size - (lookup.address - b.deviceAddress)
    else lookup.size⟩

theorem touchBufferByAddress_eq (records : List Buffer) (touched : Touched) (lookup : Lookup) :
    touchBufferByAddress records touched lookup =
      if lookup.address = 0 then some touched
      else (lookup.taken records).bind fun (b, data) =>
        touch (objects records) touched (lookup.toTouch b data) := by
  rw [← found_eq_taken]
  rfl

/-- The touched bytes end where the addresses do. -/
theorem Lookup.toTouch_end (htaken : lookup.taken records = some (b, data)) :
    (lookup.toTouch b data).offset + (lookup.toTouch b data).length (objects records) +
      b.deviceAddress = lookup.stop records := by
  obtain ⟨hplace, ⟨-, -, hlow, hhigh⟩, -, -⟩ := Lookup.taken_some htaken
  have hobject := objects_eq hplace
  rw [Lookup.stop_eq htaken]
  by_cases hrest : lookup.size = 0
  · have hwhole : (lookup.toTouch b data).length (objects records) =
        (objects records data).size - (lookup.address - b.deviceAddress) := by
      apply Touch.length_of_whole
      · exact if_pos hrest
      · show lookup.address - b.deviceAddress ≤ (objects records data).size
        rw [hobject]
        omega
    rw [hwhole, hobject, if_neg (by omega)]
    show lookup.address - b.deviceAddress + _ + _ = _
    omega
  · have hpart : (lookup.toTouch b data).length (objects records) =
        (lookup.toTouch b data).size := by
      apply Touch.length_of_fits
      show lookup.address - b.deviceAddress + (if lookup.size = 0 then wholeSize else _) ≤
        (objects records data).size
      rw [if_neg hrest, hobject]
      split_ifs <;> omega
    rw [hpart]
    show lookup.address - b.deviceAddress + (if lookup.size = 0 then wholeSize else _) + _ = _
    rw [if_neg hrest]
    split_ifs <;> omega

/-- The touched bytes of the buffer are those at the addresses. -/
theorem Lookup.toTouch_has (hzero : lookup.address ≠ 0)
    (htaken : lookup.taken records = some (b, data)) (item : Nat × Nat) :
    (objects records item.1).accessible = true ∧
      (lookup.toTouch b data).Has (objects records) item.1 item.2 ↔
        lookup.Touches records item := by
  obtain ⟨hplace, ⟨-, -, hlow, -⟩, -, -⟩ := Lookup.taken_some htaken
  have hend := Lookup.toTouch_end htaken
  have hoffset : (lookup.toTouch b data).offset = lookup.address - b.deviceAddress := rfl
  unfold Touch.Has Lookup.Touches Lookup.Spans
  rw [htaken]
  constructor
  · rintro ⟨haccessible, hitem, hitemLow, hitemHigh⟩
    have hdata : data = item.1 := hitem
    subst hdata
    rw [objects_eq hplace] at haccessible
    exact ⟨b, rfl, haccessible, hzero, by omega, by omega⟩
  · rintro ⟨other, hother, haccessible, -, hitemLow, hitemHigh⟩
    obtain ⟨rfl, hitem⟩ : b = other ∧ data = item.1 := by simpa using hother
    rw [← hitem, objects_eq hplace]
    exact ⟨haccessible, rfl, by omega, by omega⟩

/-- **One lookup** touches the part of the buffer that is taken, and fails without a buffer. -/
theorem touchBufferByAddress_collects (records : List Buffer) :
    Collects (touchBufferByAddress records) (Sound (objects records))
      (fun touched item => Mem touched item.1 item.2) (Lookup.Found records)
      (Lookup.Touches records) := by
  intro touched lookup hsound
  rw [touchBufferByAddress_eq]
  constructor
  · intro hfound
    -- the null address is passed over
    by_cases hzero : lookup.address = 0
    · rw [if_pos hzero]
      refine ⟨touched, rfl, hsound, fun item => ?_⟩
      constructor
      · exact Or.inl
      · rintro (hmem | ⟨_, -, -, hspans, -⟩)
        · exact hmem
        · exact absurd hzero hspans
    · rw [if_neg hzero]
      obtain ⟨b, data, htaken⟩ := Lookup.exists_taken (hfound.resolve_left hzero)
      obtain ⟨hplace, -, -, hstop⟩ := Lookup.taken_some htaken
      rw [htaken, Option.bind_some]
      have hfits : (objects records (lookup.toTouch b data).data).accessible = true →
          (lookup.toTouch b data).Fits (objects records) := by
        intro _
        have hend := Lookup.toTouch_end htaken
        unfold Touch.Fits
        rw [show objects records (lookup.toTouch b data).data = b.object from objects_eq hplace]
        omega
      obtain ⟨next, hnext, hnextSound, hmem⟩ := touch_spec hsound hfits
      refine ⟨next, hnext, hnextSound, fun item => (hmem item.1 item.2).trans ?_⟩
      exact or_congr_right (Lookup.toTouch_has hzero htaken item)
  · intro hlost
    unfold Lookup.Found at hlost
    rw [not_or] at hlost
    rw [if_neg hlost.1]
    cases htaken : lookup.taken records with
    | none => rfl
    | some entry =>
        obtain ⟨hplace, hhas, -⟩ := Lookup.taken_some htaken
        exact absurd ⟨_, List.mem_of_getElem? hplace, hhas⟩ hlost.2

/-- A geometry that is supported, and all of whose addresses are found. -/
def Ready (records : List Buffer) (part : Geometry × Option BuildRange) : Prop :=
  ∃ lookups, part.1.lookups part.2 = some lookups ∧ ∀ lookup ∈ lookups, lookup.Found records

/-- **One geometry.** -/
theorem buildGeometry_collects (records : List Buffer) :
    Collects (buildGeometry records) (Sound (objects records))
      (fun touched item => Mem touched item.1 item.2) (Ready records)
      fun part item => ∃ lookups, part.1.lookups part.2 = some lookups ∧
        ∃ lookup ∈ lookups, lookup.Touches records item := by
  intro touched part hsound
  unfold buildGeometry Ready
  cases hlookups : part.1.lookups part.2 with
  -- a geometry of no lookups stops the build
  | none =>
      constructor
      · rintro ⟨lookups, hsome, -⟩
        cases hsome
      · intro _
        rfl
  | some lookups =>
      obtain ⟨hmeets, hrefuses⟩ :=
        exec_collects (touchBufferByAddress_collects records) touched lookups hsound
      constructor
      · rintro ⟨others, hsome, hfound⟩
        cases hsome
        obtain ⟨next, hnext, hnextSound, hmem⟩ := hmeets hfound
        refine ⟨next, hnext, hnextSound, fun item => (hmem item).trans (or_congr_right ?_)⟩
        constructor
        · intro htouches
          exact ⟨lookups, hlookups, htouches⟩
        · rintro ⟨others, hothers, htouches⟩
          rw [hlookups] at hothers
          cases hothers
          exact htouches
      · intro hlost
        exact hrefuses fun hfound => hlost ⟨lookups, rfl, hfound⟩

/-! ## What a build reads -/

/-- The vertex of a corner of a triangle. -/
def Triangles.vertex (t : Triangles) (range : BuildRange) (corner : Nat) : Nat :=
  range.firstVertex + if t.indexType = .none then corner else t.index corner

/-- The offset of the vertices: that of the primitives, where there are no indices. -/
def Triangles.vertexOffset (t : Triangles) (range : BuildRange) : Nat :=
  if t.indexType = .none then range.primitiveOffset else 0

/-- The addresses of the vertices. -/
def Triangles.ReadsVertex (t : Triangles) (range : BuildRange) (address : Nat) : Prop :=
  ∃ corner < 3 * range.primitiveCount, ∃ k < t.vertexSize,
    address = t.vertexData + t.vertexOffset range + t.vertex range corner * t.vertexStride + k

/-- The addresses of the indices. -/
def Triangles.ReadsIndex (t : Triangles) (range : BuildRange) (address : Nat) : Prop :=
  ∃ corner < 3 * range.primitiveCount, ∃ k < t.indexType.size,
    address = t.indexData + range.primitiveOffset + corner * t.indexType.size + k

/-- The addresses of the transform. -/
def Triangles.ReadsTransform (t : Triangles) (range : BuildRange) (address : Nat) : Prop :=
  t.transformData ≠ 0 ∧ ∃ k < 48, address = t.transformData + range.transformOffset + k

/-- The addresses of as many elements of an array as there are primitives. -/
def ReadsElements (data stride size : Nat) (range : BuildRange) (address : Nat) : Prop :=
  ∃ primitive < range.primitiveCount, ∃ k < size,
    address = data + range.primitiveOffset + primitive * stride + k

/-- The addresses that the build of a geometry reads: boxes have 24 bytes, instances 64 and pointers
to instances 8. -/
def Geometry.Reads (range : BuildRange) (address : Nat) : Geometry → Prop
  | .triangles t =>
      t.ReadsVertex range address ∨ t.ReadsIndex range address ∨ t.ReadsTransform range address
  | .aabbs a => ReadsElements a.data a.stride 24 range address
  | .instances false data => ReadsElements data 64 64 range address
  | .instances true data => ReadsElements data 8 8 range address
  | .other => False

/-- An input that is not used, or whose address is one of a buffer that has all that is read. -/
def InputValid (records : List Buffer) (address offset : Nat) (Reads : Nat → Prop) : Prop :=
  (address = 0 ∧ ∀ x, ¬ Reads x) ∨
    ∃ b ∈ records, b.Has address ∧ address + offset ≤ b.deviceAddress + b.object.size ∧
      ∀ x, Reads x → b.Has x

/-- Valid usage of a geometry. -/
def Geometry.Valid (records : List Buffer) (range : BuildRange) : Geometry → Prop
  | .triangles t =>
      (∀ corner < 3 * range.primitiveCount, t.vertex range corner ≤ t.maxVertex) ∧
        InputValid records t.vertexData (t.vertexOffset range) (t.ReadsVertex range) ∧
        (t.indexType ≠ .none →
          InputValid records t.indexData range.primitiveOffset (t.ReadsIndex range)) ∧
        InputValid records t.transformData range.transformOffset (t.ReadsTransform range)
  | .aabbs a =>
      InputValid records a.data range.primitiveOffset (ReadsElements a.data a.stride 24 range)
  | .instances false data =>
      InputValid records data range.primitiveOffset (ReadsElements data 64 64 range)
  | .instances true data =>
      InputValid records data range.primitiveOffset (ReadsElements data 8 8 range)
  | .other => True

/-- Valid usage of a build: every geometry has a range. -/
def BuildValid (records : List Buffer) (infos : List BuildInfo) : Prop :=
  ∀ part ∈ infos.flatMap BuildInfo.parts, ∃ range, part.2 = some range ∧
    part.1.Valid records range

/-- The bytes of all vertices up to the last one, in exact numbers. -/
def Triangles.exactBytes (t : Triangles) : Nat := (t.maxVertex + 1) * t.vertexStride

/-- The bytes of the vertices, where zero stands for the rest of the buffer. -/
def Triangles.countedBytes (t : Triangles) : Nat :=
  if t.maxVertex + 1 = 2 ^ 32 then 0 else t.exactBytes

def Triangles.vertexSpans (t : Triangles) (vertexBytes : Nat) : List Lookup :=
  if t.vertexData ≠ 0 ∧ t.vertexStride > 0 then [⟨t.vertexData, vertexBytes⟩] else []

def Triangles.indexSpans (t : Triangles) (range : BuildRange) : List Lookup :=
  if t.indexData ≠ 0 ∧ t.indexType ≠ .none then
    [⟨t.indexData + range.primitiveOffset, range.primitiveCount * 3 * t.indexType.size⟩]
  else []

def Triangles.transformSpans (t : Triangles) (range : BuildRange) : List Lookup :=
  if t.transformData ≠ 0 then [⟨t.transformData + range.transformOffset, 48⟩] else []

/-- The ranges of the inputs of a geometry, in numbers without bound. -/
def Geometry.spans (vertexBytes : Triangles → Nat) (range : BuildRange) : Geometry → List Lookup
  | .triangles t =>
      t.vertexSpans (vertexBytes t) ++ (t.indexSpans range ++ t.transformSpans range)
  | .aabbs a =>
      if a.stride > 0 then [⟨a.data + range.primitiveOffset, range.primitiveCount * a.stride⟩]
      else [⟨a.data, 0⟩]
  | .instances _ data => [⟨data + range.primitiveOffset, range.primitiveCount * 64⟩]
  | .other => []

/-- A span of one of the geometries has the address. -/
def Spanned (records : List Buffer) (infos : List BuildInfo) (address : Nat) : Prop :=
  ∃ part ∈ infos.flatMap BuildInfo.parts, ∃ range, part.2 = some range ∧
    ∃ span ∈ part.1.spans Triangles.countedBytes range, span.Spans records address

/-- One of the geometries reads the address. -/
def BuildReads (infos : List BuildInfo) (address : Nat) : Prop :=
  ∃ part ∈ infos.flatMap BuildInfo.parts, ∃ range, part.2 = some range ∧
    part.1.Reads range address

/-- A live buffer has the address, and the byte is touched if the host writes the buffer. -/
def Held (records : List Buffer) (touched : Touched) (address : Nat) : Prop :=
  ∃ data b, records[data]? = some b ∧ b.Has address ∧
    (b.object.accessible = true → Mem touched data (address - b.deviceAddress))

/-- No number that is looked up wraps around to a shorter range. -/
def NotShorter (records : List Buffer) (infos : List BuildInfo) : Prop :=
  ∀ part ∈ infos.flatMap BuildInfo.parts, ∀ range lookups, part.2 = some range →
    part.1.lookups part.2 = some lookups →
      List.Forall₂ (fun lookup exact => lookup.address = exact.address ∧
          exact.stop records ≤ lookup.stop records)
        lookups (part.1.spans Triangles.exactBytes range)

/-- **What a build has to do**: it passes, touches all that is read and nothing behind the end of a
buffer, and no number wraps around to a shorter range. -/
def BuildTouches (records : List Buffer) (touched : Touched) (infos : List BuildInfo) : Prop :=
  (∃ next, postCmdBuildAccelerationStructures records touched infos = some next ∧
    (∀ data x, Mem next data x → x < (objects records data).size) ∧
      ∀ address, BuildReads infos address → Held records next address) ∧
    NotShorter records infos

/-- **When it does so**, in terms of the arguments and the buffers. -/
structure BuildCovered (records : List Buffer) (touched : Touched) (infos : List BuildInfo) :
    Prop where
  supported : ∀ part ∈ infos.flatMap BuildInfo.parts, ∀ data, part.1 ≠ .instances true data
  found : ∀ part ∈ infos.flatMap BuildInfo.parts, ∀ range, part.2 = some range →
    ∀ span ∈ part.1.spans Triangles.countedBytes range, span.Found records
  spanned : ∀ address, BuildReads infos address → Spanned records infos address ∨
    (∃ b ∈ records, b.Has address ∧ b.object.accessible = false) ∨
      ∃ data b, records[data]? = some b ∧ b.Has address ∧
        Mem touched data (address - b.deviceAddress)
  counted : ∀ part ∈ infos.flatMap BuildInfo.parts, ∀ t, part.1 = .triangles t →
    t.vertexData ≠ 0 → t.vertexStride > 0 → t.maxVertex + 1 = 2 ^ 32 →
      Lookup.stop records ⟨t.vertexData, t.exactBytes⟩ ≤ Lookup.stop records ⟨t.vertexData, 0⟩

/-! ## When a build touches what it reads -/

variable {infos : List BuildInfo} {range : BuildRange} {g : Geometry}

theorem InputValid.lt {offset : Nat} {Reads : Nat → Prop}
    (h : InputValid records address offset Reads) (hoffset : offset < 2 ^ 32) :
    address + offset < 2 ^ 64 := by
  rcases h with ⟨hzero, -⟩ | ⟨b, -, -, hend, -⟩
  · omega
  · have hlt := b.address_lt
    omega

/-- Only the number of vertices can wrap around. -/
theorem lookups_eq (hvalid : g.Valid records range)
    (hsupported : ∀ data, g ≠ .instances true data) :
    g.lookups (some range) = some (g.spans Triangles.countedBytes range) := by
  have hcount := range.primitiveCount_lt
  cases g with
  | triangles t =>
      obtain ⟨-, -, hindex, htransform⟩ := hvalid
      -- the number of vertices has 32 bits, and is zero for the largest vertex
      have hvertexBytes : (t.maxVertex + 1) % 2 ^ 32 * t.vertexStride % 2 ^ 64 =
          t.countedBytes := by
        have hmax := t.maxVertex_lt
        unfold Triangles.countedBytes Triangles.exactBytes
        split_ifs with hfull
        · rw [hfull, Nat.mod_self, Nat.zero_mul, Nat.zero_mod]
        · rw [Nat.mod_eq_of_lt (show t.maxVertex + 1 < 2 ^ 32 by omega)]
          apply Nat.mod_eq_of_lt
          calc (t.maxVertex + 1) * t.vertexStride
              < 2 ^ 32 * 2 ^ 32 := Nat.mul_lt_mul'' (by omega) t.vertexStride_lt
            _ = 2 ^ 64 := by norm_num
      have hindexBytes : range.primitiveCount * 3 * t.indexType.size % 2 ^ 64 =
          range.primitiveCount * 3 * t.indexType.size := by
        apply Nat.mod_eq_of_lt
        cases t.indexType <;> simp only [IndexType.size] <;> omega
      have htransformAddress :=
        Nat.mod_eq_of_lt (htransform.lt range.transformOffset_lt)
      have hindices : t.indexLookups (some range) = t.indexSpans range := by
        unfold Triangles.indexLookups Triangles.indexSpans
        split_ifs with hindexed
        · simp only [hindexBytes,
            Nat.mod_eq_of_lt ((hindex hindexed.2).lt range.primitiveOffset_lt)]
        · rfl
      show some (_ ++ _ ++ _) = some (_ ++ (_ ++ _))
      rw [hindices, List.append_assoc]
      unfold Triangles.vertexLookups Triangles.vertexSpans Triangles.transformLookups
        Triangles.transformSpans
      simp only [hvertexBytes, htransformAddress]
  | aabbs a =>
      have hstride := a.stride_lt
      -- two factors of 32 bits
      have hbytes : range.primitiveCount * a.stride % 2 ^ 64 = range.primitiveCount * a.stride := by
        apply Nat.mod_eq_of_lt
        calc range.primitiveCount * a.stride
            < 2 ^ 32 * 2 ^ 32 := Nat.mul_lt_mul'' hcount hstride
          _ = 2 ^ 64 := by norm_num
      unfold Geometry.lookups Geometry.spans
      simp only [hbytes, Nat.mod_eq_of_lt (InputValid.lt hvalid range.primitiveOffset_lt)]
      split_ifs <;> rfl
  | instances arrayOfPointers data =>
      cases arrayOfPointers with
      | true => exact absurd rfl (hsupported data)
      | false =>
          unfold Geometry.lookups Geometry.spans
          simp only [Nat.mod_eq_of_lt (InputValid.lt hvalid range.primitiveOffset_lt),
            Nat.mod_eq_of_lt (show range.primitiveCount * 64 < 2 ^ 64 by omega)]
  | other => rfl

/-- The spans of a geometry whose vertices are counted without wrapping around. -/
theorem spans_notShorter (g : Geometry) (range : BuildRange)
    (hcounted : ∀ t, g = .triangles t → t.vertexData ≠ 0 → t.vertexStride > 0 →
      t.maxVertex + 1 = 2 ^ 32 →
        Lookup.stop records ⟨t.vertexData, t.exactBytes⟩ ≤ Lookup.stop records ⟨t.vertexData, 0⟩) :
    List.Forall₂ (fun lookup exact => lookup.address = exact.address ∧
        exact.stop records ≤ lookup.stop records)
      (g.spans Triangles.countedBytes range) (g.spans Triangles.exactBytes range) := by
  have hsame : ∀ spans : List Lookup, List.Forall₂ (fun lookup exact =>
      lookup.address = exact.address ∧ exact.stop records ≤ lookup.stop records) spans spans :=
    fun spans => List.forall₂_same.mpr fun _ _ => ⟨rfl, le_rfl⟩
  cases g with
  | triangles t =>
      show List.Forall₂ _ (t.vertexSpans _ ++ _) (t.vertexSpans _ ++ _)
      unfold Triangles.vertexSpans
      split_ifs with hvertices
      · refine List.Forall₂.cons ⟨rfl, ?_⟩ (hsame _)
        unfold Triangles.countedBytes
        split_ifs with hfull
        · exact hcounted t rfl hvertices.1 hvertices.2 hfull
        · exact le_rfl
      · exact hsame _
  | _ => exact hsame _

/-- The lookups of a valid build without pointers to instances. -/
theorem BuildValid.lookups_eq (hvalid : BuildValid records infos)
    (hsupported : ∀ part ∈ infos.flatMap BuildInfo.parts, ∀ data,
      part.1 ≠ .instances true data) :
    ∀ part ∈ infos.flatMap BuildInfo.parts, ∀ range, part.2 = some range →
      part.1.lookups part.2 = some (part.1.spans Triangles.countedBytes range) := by
  intro part hpart range hrange
  obtain ⟨range', hrange', hgeometry⟩ := hvalid part hpart
  rw [hrange] at hrange'
  cases hrange'
  rw [hrange]
  exact AccelerationBuild.lookups_eq hgeometry (hsupported part hpart)

theorem Ready.supported {part : Geometry × Option BuildRange} (h : Ready records part)
    (data : Nat) : part.1 ≠ .instances true data := by
  intro hpointers
  obtain ⟨lookups, hsome, -⟩ := h
  rw [hpointers] at hsome
  cases hsome

/-- A build that passes found all that it looked up. -/
theorem ready_of_build {next : Touched} (hsound : Sound (objects records) touched)
    (hnext : postCmdBuildAccelerationStructures records touched infos = some next) :
    ∀ part ∈ infos.flatMap BuildInfo.parts, Ready records part := by
  by_contra hlost
  have hnone : postCmdBuildAccelerationStructures records touched infos = none :=
    (exec_collects (buildGeometry_collects records) touched _ hsound).2 hlost
  rw [hnext] at hnone
  cases hnone

/-- **A whole build** that finds what it looks up. -/
theorem build_spec (hsound : Sound (objects records) touched)
    (hready : ∀ part ∈ infos.flatMap BuildInfo.parts, Ready records part) :
    ∃ next, postCmdBuildAccelerationStructures records touched infos = some next ∧
      Sound (objects records) next ∧ ∀ data x, Mem next data x ↔ Mem touched data x ∨
        ∃ part ∈ infos.flatMap BuildInfo.parts, ∃ lookups,
          part.1.lookups part.2 = some lookups ∧
            ∃ lookup ∈ lookups, lookup.Touches records (data, x) := by
  obtain ⟨next, hnext, hnextSound, hmem⟩ :=
    (exec_collects (buildGeometry_collects records) touched _ hsound).1 hready
  exact ⟨next, hnext, hnextSound, fun data x => hmem (data, x)⟩

/-- The byte that a lookup touches is at one of its addresses. -/
theorem Lookup.Touches.spans {address : Nat} (h : lookup.Touches records
    (data, address - b.deviceAddress)) (hplace : records[data]? = some b)
    (hhas : b.Has address) : lookup.Spans records address := by
  obtain ⟨other, htaken, -, hspans⟩ := h
  obtain ⟨hother, -⟩ := Lookup.taken_some htaken
  rw [hplace] at hother
  cases hother
  rwa [Nat.add_sub_of_le hhas.2.2.1] at hspans

/-- A buffer has the addresses of a lookup that is found, and its bytes are touched. -/
theorem Lookup.Spans.touches {address : Nat} (h : lookup.Spans records address)
    (hfound : lookup.Found records) :
    ∃ data b, records[data]? = some b ∧ b.Has address ∧ (b.object.accessible = true →
      lookup.Touches records (data, address - b.deviceAddress)) := by
  obtain ⟨hzero, hlow, hhigh⟩ := h
  obtain ⟨b, data, htaken⟩ := Lookup.exists_taken (hfound.resolve_left hzero)
  obtain ⟨hplace, ⟨hlive, haddress, hle, -⟩, -, hstop⟩ := Lookup.taken_some htaken
  refine ⟨data, b, hplace, ⟨hlive, haddress, by omega, by omega⟩, fun haccessible => ?_⟩
  have hsum : b.deviceAddress + (address - b.deviceAddress) = address :=
    Nat.add_sub_of_le (by omega)
  refine ⟨b, htaken, haccessible, ?_⟩
  rw [hsum]
  exact ⟨hzero, hlow, hhigh⟩

/-- The first span of triangles is that of their vertices. -/
theorem vertex_stop_le {t : Triangles} (hdata : t.vertexData ≠ 0) (hstride : t.vertexStride > 0)
    (hshort : List.Forall₂ (fun lookup exact => lookup.address = exact.address ∧
        exact.stop records ≤ lookup.stop records)
      (Geometry.spans Triangles.countedBytes range (.triangles t))
      (Geometry.spans Triangles.exactBytes range (.triangles t))) :
    Lookup.stop records ⟨t.vertexData, t.exactBytes⟩ ≤
      Lookup.stop records ⟨t.vertexData, t.countedBytes⟩ := by
  rw [Geometry.spans, Geometry.spans, Triangles.vertexSpans, if_pos ⟨hdata, hstride⟩,
    Triangles.vertexSpans, if_pos ⟨hdata, hstride⟩] at hshort
  cases hshort with
  | cons hfirst _ => exact hfirst.2

/-- What a build has to do is covered when it does it. -/
theorem BuildTouches.covered (hsound : Sound (objects records) touched)
    (hvalid : BuildValid records infos) (h : BuildTouches records touched infos) :
    BuildCovered records touched infos := by
  obtain ⟨⟨next, hnext, -, hheld⟩, hshort⟩ := h
  have hready := ready_of_build hsound hnext
  have hsupported : ∀ part ∈ infos.flatMap BuildInfo.parts, ∀ data,
      part.1 ≠ .instances true data := fun part hpart => (hready part hpart).supported
  have hspans := hvalid.lookups_eq hsupported
  obtain ⟨final, hfinal, -, hmem⟩ := build_spec hsound hready
  have hsame : final = next := Option.some_inj.mp (hfinal.symm.trans hnext)
  subst hsame
  constructor
  · exact hsupported
  · intro part hpart range hrange span hspan
    obtain ⟨lookups, hsome, hfound⟩ := hready part hpart
    rw [hspans part hpart range hrange] at hsome
    cases hsome
    exact hfound span hspan
  · intro address hreads
    obtain ⟨data, b, hplace, hhas, htouched⟩ := hheld address hreads
    cases haccessible : b.object.accessible with
    | false => exact Or.inr (Or.inl ⟨b, List.mem_of_getElem? hplace, hhas, haccessible⟩)
    -- the byte was touched before, or by a span of this build
    | true =>
        rcases (hmem data (address - b.deviceAddress)).mp (htouched haccessible) with
          hbefore | ⟨part, hpart, lookups, hsome, span, hspan, htouches⟩
        · exact Or.inr (Or.inr ⟨data, b, hplace, hhas, hbefore⟩)
        · left
          obtain ⟨range, hrange, -⟩ := hvalid part hpart
          rw [hspans part hpart range hrange] at hsome
          cases hsome
          exact ⟨part, hpart, range, hrange, span, hspan, htouches.spans hplace hhas⟩
  · intro part hpart t ht hdata hstride hfull
    obtain ⟨range, hrange, -⟩ := hvalid part hpart
    have hpair := hshort part hpart range _ hrange (hspans part hpart range hrange)
    rw [ht] at hpair
    have hcounts : t.countedBytes = 0 := if_pos hfull
    rw [← hcounts]
    exact vertex_stop_le hdata hstride hpair

/-- A build whose inputs are covered does what it has to do. -/
theorem BuildCovered.touches (hsound : Sound (objects records) touched)
    (hvalid : BuildValid records infos) (h : BuildCovered records touched infos) :
    BuildTouches records touched infos := by
  obtain ⟨hsupported, hfound, hspanned, hcounted⟩ := h
  have hspans := hvalid.lookups_eq hsupported
  have hready : ∀ part ∈ infos.flatMap BuildInfo.parts, Ready records part := by
    intro part hpart
    obtain ⟨range, hrange, -⟩ := hvalid part hpart
    exact ⟨_, hspans part hpart range hrange, hfound part hpart range hrange⟩
  obtain ⟨next, hnext, hnextSound, hmem⟩ := build_spec hsound hready
  refine ⟨⟨next, hnext, hnextSound.inside, fun address hreads => ?_⟩, ?_⟩
  -- in a span, in a buffer that the host does not write, or touched before
  · rcases hspanned address hreads with ⟨part, hpart, range, hrange, span, hspan, haddress⟩ |
        ⟨b, hb, hhas, hspared⟩ | ⟨data, b, hplace, hhas, hbefore⟩
    · obtain ⟨data, b, hplace, hhas, htouches⟩ :=
        haddress.touches (hfound part hpart range hrange span hspan)
      refine ⟨data, b, hplace, hhas, fun haccessible => ?_⟩
      exact (hmem data _).mpr (Or.inr ⟨part, hpart, _, hspans part hpart range hrange, span,
        hspan, htouches haccessible⟩)
    · obtain ⟨data, hplace⟩ := List.getElem?_of_mem hb
      refine ⟨data, b, hplace, hhas, fun haccessible => ?_⟩
      rw [hspared] at haccessible
      cases haccessible
    · refine ⟨data, b, hplace, hhas, fun _ => ?_⟩
      exact (hmem data (address - b.deviceAddress)).mpr (Or.inl hbefore)
  · intro part hpart range lookups hrange hsome
    rw [hspans part hpart range hrange] at hsome
    cases hsome
    exact spans_notShorter part.1 range (hcounted part hpart)

/-- **A build touches what it reads** exactly when the spans of its inputs, or what needs no touch,
have all of it. -/
theorem build_touches_iff (records : List Buffer) (touched : Touched) (infos : List BuildInfo)
    (hsound : Sound (objects records) touched) (hvalid : BuildValid records infos) :
    BuildTouches records touched infos ↔ BuildCovered records touched infos :=
  ⟨BuildTouches.covered hsound hvalid, BuildCovered.touches hsound hvalid⟩

/-- One buffer of 256 bytes that the host writes. -/
def oneBuffer : Buffer where
  deviceAddress := 4096
  object := ⟨256, true, by decide⟩
  live := true
  shaderBindingTable := false
  address_lt := by decide

theorem oneBuffer_has (h : 4096 ≤ address ∧ address < 4352) : oneBuffer.Has address :=
  ⟨rfl, by decide, h.1, h.2⟩

/-- A range of primitives with an offset. -/
def primitives (count offset : Nat) (hcount : count < 2 ^ 32) (hoffset : offset < 2 ^ 32) :
    BuildRange where
  primitiveCount := count
  primitiveOffset := offset
  firstVertex := 0
  transformOffset := 0
  primitiveCount_lt := hcount
  primitiveOffset_lt := hoffset
  transformOffset_lt := by decide

/-- Two boxes at the start of the buffer. -/
def twoBoxes : BuildInfo where
  geometries := [some (.aabbs ⟨4096, 24, by decide⟩)]
  ranges := some fun _ => primitives 2 0 (by decide) (by decide)

theorem build_touches_iff_boxes : BuildTouches [oneBuffer] (fun _ => none) [twoBoxes] := by
  have hinside : ∀ address, ReadsElements 4096 24 24 (primitives 2 0 (by decide) (by decide))
      address → 4096 ≤ address ∧ address < 4144 := by
    rintro address ⟨primitive, hprimitive, k, hk, rfl⟩
    simp only [primitives] at hprimitive ⊢
    omega
  have hvalid : BuildValid [oneBuffer] [twoBoxes] := by
    intro part hpart
    obtain rfl : part = _ := List.mem_singleton.mp hpart
    refine ⟨_, rfl, Or.inr ⟨oneBuffer, List.mem_singleton_self _, ?_, by decide, ?_⟩⟩
    · exact oneBuffer_has ⟨le_rfl, by decide⟩
    · intro x hreads
      have := hinside x hreads
      exact oneBuffer_has ⟨this.1, by omega⟩
  refine (build_touches_iff [oneBuffer] (fun _ => none) [twoBoxes] sound_empty hvalid).mpr ?_
  constructor
  · intro part hpart data
    obtain rfl : part = _ := List.mem_singleton.mp hpart
    exact nofun
  · intro part hpart range hrange span hspan
    obtain rfl : part = _ := List.mem_singleton.mp hpart
    cases hrange
    have hspan' : span ∈ [Lookup.mk 4096 48] := hspan
    rw [List.mem_singleton.mp hspan']
    exact Or.inr ⟨oneBuffer, List.mem_singleton_self _, oneBuffer_has ⟨le_rfl, by decide⟩⟩
  · rintro address ⟨part, hpart, range, hrange, hreads⟩
    obtain rfl : part = _ := List.mem_singleton.mp hpart
    cases hrange
    have hstop : Lookup.stop [oneBuffer] ⟨4096, 48⟩ = 4144 := by decide
    have := hinside address hreads
    refine Or.inl ⟨_, List.mem_singleton_self _, _, rfl, ⟨4096, 48⟩, List.mem_singleton_self _,
      by decide, this.1, ?_⟩
    rw [hstop]
    exact this.2
  · intro part hpart t ht
    obtain rfl : part = _ := List.mem_singleton.mp hpart
    cases ht

/-- One triangle without indices, three vertices behind the start of the buffer. -/
def offsetTriangle : Triangles where
  vertexSize := 12
  vertexData := 4096
  vertexStride := 12
  maxVertex := 2
  indexType := .none
  indexData := 0
  index := fun _ => 0
  transformData := 0
  maxVertex_lt := by decide
  vertexStride_lt := by decide

def offsetTriangles : BuildInfo where
  geometries := [some (.triangles offsetTriangle)]
  ranges := some fun _ => primitives 1 36 (by decide) (by decide)

/-- The vertices behind a primitive offset are not touched. -/
theorem primitive_offset_is_ignored :
    ¬ ∀ (records : List Buffer) (touched : Touched) (infos : List BuildInfo),
      Sound (objects records) touched → BuildValid records infos →
        BuildTouches records touched infos := by
  intro hall
  have hvalid : BuildValid [oneBuffer] [offsetTriangles] := by
    intro part hpart
    obtain rfl : part = _ := List.mem_singleton.mp hpart
    refine ⟨_, rfl, ?_, Or.inr ⟨oneBuffer, List.mem_singleton_self _, ?_, by decide, ?_⟩,
      fun h => absurd rfl h, Or.inl ⟨rfl, fun x hreads => hreads.1 rfl⟩⟩
    · intro corner hcorner
      simp only [primitives] at hcorner
      simp only [Triangles.vertex, offsetTriangle, primitives, if_true]
      omega
    · exact oneBuffer_has ⟨le_rfl, by decide⟩
    · rintro x ⟨corner, hcorner, k, hk, rfl⟩
      apply oneBuffer_has
      simp only [primitives, offsetTriangle, Triangles.vertex, Triangles.vertexOffset,
        if_true] at hcorner hk ⊢
      omega
  obtain ⟨⟨next, hnext, -, hheld⟩, -⟩ :=
    hall [oneBuffer] (fun _ => none) [offsetTriangles] sound_empty hvalid
  have hreads : BuildReads [offsetTriangles] 4132 :=
    ⟨_, List.mem_singleton_self _, _, rfl, Or.inl ⟨0, by decide, 0, by decide, rfl⟩⟩
  obtain ⟨data, b, hplace, -, htouched⟩ := hheld 4132 hreads
  have hrun : (postCmdBuildAccelerationStructures [oneBuffer] (fun _ => none)
      [offsetTriangles]).map (fun touched => (touched 0).map Exposure.list) =
        some (some [⟨0, 35⟩]) := by decide
  rw [hnext, Option.map_some, Option.some_inj] at hrun
  cases data with
  | zero =>
      cases hplace
      obtain ⟨exposure, hexposure, hmem⟩ := htouched rfl
      rw [hexposure, Option.map_some, Option.some_inj] at hrun
      rw [← Exposure.covers_list, hrun] at hmem
      exact absurd hmem (by decide)
  | succ data => cases hplace

end AccelerationBuild
end Lavatube
