import Lavatube.Lib.InPlace
import Lavatube.MarkedOffsets
import Lavatube.ScratchRanges

/-!
# Ray tracing fixups

Shader binding tables hold handles of shader groups, and instance buffers hold addresses of
acceleration structures.  In front of each submit of a command buffer that uses them, the replay
looks for captured values in the memory and puts those of its own device in their places.  It knows
captured values by their contents only.

* `fixupSbtRegion`, `replayFixupSbt`, `replayFixupInstances` — the fixups of a command buffer.
* `submit` — those of a submit.
* `places` — the records and references that command buffers use.
* `ideal` — what each of them should hold.
* `Settled` — what is put there is not taken for a captured value again.
* `fixups_stay_iff` — when all submits leave what they should.
-/

namespace Lavatube
namespace RaytracingFixups

open ByteMemory InPlace LittleEndian MarkedOffsets Transition
open ScratchRanges (findBufferByReplayAddress)

/-! ### Command buffers -/

/-- `VkStridedDeviceAddressRegionKHR`. -/
structure StridedRegion where
  deviceAddress : UInt64
  stride : UInt64
  size : UInt64

/-- `raytracing_sbt_use`. -/
structure SbtUse where
  pipeline : Option Pipeline
  raygen : StridedRegion
  miss : StridedRegion
  hit : StridedRegion
  callable : StridedRegion

/-- `raytracing_instance_use`. -/
structure InstanceUse where
  deviceAddress : UInt64
  primitiveOffset : UInt64
  primitiveCount : UInt32

/-- The uses of a `trackedcmdbuffer`. -/
structure CommandBuffer where
  sbtUses : List SbtUse
  instanceUses : List InstanceUse

/-- What is there while the submits are made: the buffers, where each one begins in the memory and
whether it can be mapped, the captured addresses of the acceleration structures, and their addresses
in the replay. -/
structure Config where
  traceUsesTraceHelpers : Bool
  buffers : List ScratchRanges.Buffer
  location : Nat → Nat
  mappable : Nat → Bool
  remapping : Remapping
  accelerationStructures : List Nat

/-! ### Values -/

/-- `find_raytracing_group_index`. -/
def findRaytracingGroupIndex (pipeline : Pipeline) (record : List UInt8) : Option Nat :=
  if pipeline.groupHandleSize = 0 ∨ pipeline.groupHandles = [] then none
  else
    let maxGroups := pipeline.groupHandles.length / pipeline.groupHandleSize
    if maxGroups = 0 then none
    else
      let groupCount :=
        if pipeline.groupCount = 0 ∨ pipeline.groupCount > maxGroups then maxGroups
        else pipeline.groupCount
      (List.range groupCount).find? fun i =>
        (pipeline.groupHandles.drop (i * pipeline.groupHandleSize)).take
          pipeline.groupHandleSize = record

/-- The replay handle of a group over the beginning of a record. -/
def putHandle (pipeline : Pipeline) (group : Nat) (record : List UInt8) : List UInt8 :=
  (pipeline.groupHandlesReplay.drop (group * pipeline.groupHandleSizeReplay)).take
    pipeline.groupHandleSizeReplay ++ record.drop pipeline.groupHandleSizeReplay

/-- The body of the loop of `fixup_sbt_region`; `none` is an abort.  Handles that are larger than
those of the capture have been refused before. -/
def fixupRecord (pipeline : Pipeline) (record : List UInt8) : Option (List UInt8) :=
  if pipeline.groupHandleSizeReplay > pipeline.groupHandleSize then none
  else
    match findRaytracingGroupIndex pipeline record with
    | none => some record
    | some group =>
        if group * pipeline.groupHandleSizeReplay + pipeline.groupHandleSizeReplay >
            pipeline.groupHandlesReplay.length then none
        else some (putHandle pipeline group record)

/-- `is_known_replay_as_address`. -/
def isKnownReplayAsAddress (config : Config) (address : Nat) : Bool :=
  address ≠ 0 ∧ address ∈ config.accelerationStructures

/-- The body of the loop of `replay_fixup_commandbuffer_raytracing_instances`. -/
def fixupReference (config : Config) (reference : List UInt8) : Option (List UInt8) :=
  let current := decode reference
  if current = 0 then some reference
  else
    let translated := config.remapping.translateAddress current
    -- the captured addresses are looked at first, so one of the replay may be translated again
    if translated ≠ 0 then some (encode 8 translated)
    else if isKnownReplayAsAddress config current then some reference
    else none

theorem translateAddress_lt (remapping : Remapping) (stored : Nat) :
    remapping.translateAddress stored < 2 ^ 64 := by
  unfold Remapping.translateAddress AddressRemapper.Remapper.translateAddress
  split
  · decide
  · split_ifs
    · decide
    · exact Nat.mod_lt _ (by decide)

/-- A record of a table of a pipeline, or the reference of an instance, by its place in memory. -/
inductive Site where
  | record (pipeline : Pipeline) (position : Nat)
  | reference (position : Nat)
deriving DecidableEq

def Site.start : Site → Nat
  | .record _ position => position
  | .reference position => position

def Site.width : Site → Nat
  | .record pipeline _ => pipeline.groupHandleSize
  | .reference _ => 8

/-- What is made of a value. -/
def Site.fixup (config : Config) : Site → List UInt8 → Option (List UInt8)
  | .record pipeline _ => fixupRecord pipeline
  | .reference _ => fixupReference config

theorem length_fixup (config : Config) (s : Site) (bytes bytes' : List UInt8)
    (hlength : bytes.length = s.width) (hfixup : s.fixup config bytes = some bytes') :
    bytes'.length = s.width := by
  cases s with
  | record pipeline position =>
      replace hfixup : fixupRecord pipeline bytes = some bytes' := hfixup
      replace hlength : bytes.length = pipeline.groupHandleSize := hlength
      unfold fixupRecord at hfixup
      split_ifs at hfixup with hlarger
      split at hfixup
      · cases hfixup
        exact hlength
      · split_ifs at hfixup with hbeyond
        cases hfixup
        show (putHandle _ _ _).length = pipeline.groupHandleSize
        simp only [putHandle, List.length_append, List.length_take, List.length_drop]
        omega
  | reference position =>
      replace hfixup : fixupReference config bytes = some bytes' := hfixup
      unfold fixupReference at hfixup
      simp only at hfixup
      split_ifs at hfixup
      · cases hfixup
        exact hlength
      · cases hfixup
        exact encode_length 8 _
      · cases hfixup
        exact hlength

/-- The places and what is made of their values. -/
def rewriting (config : Config) : Rewriting Site where
  start := Site.start
  width := Site.width
  rewrite := Site.fixup config
  length_rewrite := length_fixup config

/-! ### Fixups -/

/-- The records that `fixup_sbt_region` goes through; the number of records has 32 bits. -/
def regionSites (config : Config) (pipeline : Pipeline) (region : StridedRegion) :
    Option (List Site) :=
  if region.deviceAddress = 0 ∨ region.size = 0 then some []
  else if pipeline.groupHandleSize = 0 ∨ pipeline.groupHandleSizeReplay = 0 then some []
  else if region.stride = 0 then some []
  -- larger handles would reach beyond their records
  else if pipeline.groupHandleSizeReplay > region.stride.toNat then none
  else if pipeline.groupHandleSizeReplay > pipeline.groupHandleSize then none
  else
    let recordCount := (region.size / region.stride).toNat % 2 ^ 32
    if recordCount = 0 then some []
    else
      match findBufferByReplayAddress config.buffers region.deviceAddress region.size with
      | none => none
      | some (buffer, index) =>
          -- a table in memory that cannot be mapped is left as it is
          if config.mappable index then
            some ((List.range recordCount).map fun i => .record pipeline
              (config.location index + (region.deviceAddress - buffer.deviceAddress).toNat +
                i * region.stride.toNat))
          else some []

/-- `fixup_sbt_region`. -/
def fixupSbtRegion (config : Config) (pipeline : Pipeline) (mem : Memory)
    (region : StridedRegion) : Option Memory :=
  (regionSites config pipeline region).bind (exec (step (rewriting config)) mem)

/-- The tests in front of the fixup of a use. -/
def Pipeline.fixable (pipeline : Pipeline) : Bool :=
  !pipeline.captureReplay && pipeline.groupHandleSize ≠ 0 && pipeline.groupHandles ≠ [] &&
    pipeline.groupHandleSizeReplay ≠ 0 && pipeline.groupHandlesReplay ≠ []

def SbtUse.regions (use : SbtUse) : List StridedRegion :=
  [use.raygen, use.miss, use.hit, use.callable]

/-- One round of the loop of `replay_fixup_commandbuffer_raytracing_sbt`. -/
def fixupSbtUse (config : Config) (mem : Memory) (use : SbtUse) : Option Memory :=
  match use.pipeline with
  | none => some mem
  | some pipeline =>
      if Pipeline.fixable pipeline then exec (fixupSbtRegion config pipeline) mem use.regions
      else some mem

/-- `replay_fixup_commandbuffer_raytracing_sbt`. -/
def replayFixupSbt (config : Config) (mem : Memory) (commandBuffer : CommandBuffer) :
    Option Memory :=
  if config.traceUsesTraceHelpers then some mem
  else exec (fixupSbtUse config) mem commandBuffer.sbtUses

/-- The references of an instance use.  An instance has 64 bytes, and its reference is at the end;
`none` is an abort, also where the buffer cannot be mapped. -/
def instanceSites (config : Config) (use : InstanceUse) : Option (List Site) :=
  if use.deviceAddress = 0 ∨ use.primitiveCount = 0 then some []
  else
    let baseAddress := use.deviceAddress + use.primitiveOffset
    match findBufferByReplayAddress config.buffers baseAddress
        (use.primitiveCount.toUInt64 * 64) with
    | none => none
    | some (buffer, index) =>
        if config.mappable index then
          some ((List.range use.primitiveCount.toNat).map fun i => .reference
            (config.location index + (baseAddress - buffer.deviceAddress).toNat + i * 64 + 56))
        else none

/-- One round of the loop of `replay_fixup_commandbuffer_raytracing_instances`. -/
def fixupInstanceUse (config : Config) (mem : Memory) (use : InstanceUse) : Option Memory :=
  (instanceSites config use).bind (exec (step (rewriting config)) mem)

/-- `replay_fixup_commandbuffer_raytracing_instances`. -/
def replayFixupInstances (config : Config) (mem : Memory) (commandBuffer : CommandBuffer) :
    Option Memory :=
  if config.traceUsesTraceHelpers then some mem
  else exec (fixupInstanceUse config) mem commandBuffer.instanceUses

/-- The fixups of `replay_pre_vkQueueSubmit` and `replay_pre_vkQueueSubmit2`. -/
def submit (config : Config) (mem : Memory) (commandBuffers : List CommandBuffer) :
    Option Memory :=
  exec (fun mem commandBuffer => (replayFixupInstances config mem commandBuffer).bind fun mem =>
    replayFixupSbt config mem commandBuffer) mem commandBuffers

/-! ## What should be there -/

/-- The records of a region.  With a stride of zero there is one. -/
def regionPlaces (config : Config) (pipeline : Pipeline) (region : StridedRegion) : List Site :=
  if region.deviceAddress = 0 ∨ region.size = 0 then []
  else
    match findBufferByReplayAddress config.buffers region.deviceAddress region.size with
    | none => []
    | some (buffer, index) =>
        (List.range (if region.stride = 0 then 1 else (region.size / region.stride).toNat)).map
          fun i => .record pipeline
            (config.location index + (region.deviceAddress - buffer.deviceAddress).toNat +
              i * region.stride.toNat)

/-- The records of the tables of a use. -/
def usePlaces (config : Config) (use : SbtUse) : List Site :=
  match use.pipeline with
  | none => []
  | some pipeline => use.regions.flatMap (regionPlaces config pipeline)

/-- **The records and references** that command buffers use. -/
def places (config : Config) (commandBuffers : List CommandBuffer) : List Site :=
  commandBuffers.flatMap fun commandBuffer =>
    (commandBuffer.instanceUses.flatMap fun use => (instanceSites config use).getD []) ++
      commandBuffer.sbtUses.flatMap (usePlaces config)

/-- **What a place should hold** where it held `value`: the replay handle of the group whose
captured handle it is, or the translation of an address.  Handles that the replay has captured again
are those of the capture. -/
def ideal (config : Config) : Site → List UInt8 → List UInt8
  | .record pipeline _, value =>
      if pipeline.captureReplay then value
      else
        match findRaytracingGroupIndex pipeline value with
        | none => value
        | some group => putHandle pipeline group value
  | .reference _, value =>
      if decode value = 0 ∨ config.remapping.translateAddress (decode value) = 0 then value
      else encode 8 (config.remapping.translateAddress (decode value))

/-- The records and references hold what they should, and nothing else has changed. -/
structure Fixed (config : Config) (mem next : Memory) (sites : List Site) : Prop where
  translated : ∀ s ∈ sites,
    content (rewriting config) next s = ideal config s (content (rewriting config) mem s)
  others : ∀ i, (∀ s ∈ sites, ¬ Within (rewriting config) s i) → next i = mem i

/-- The places that the fixups of a use go through. -/
def useSites (config : Config) (use : SbtUse) : Option (List Site) :=
  match use.pipeline with
  | none => some []
  | some pipeline =>
      if Pipeline.fixable pipeline then gather (regionSites config pipeline) use.regions
      else some []

def commandSites (config : Config) (commandBuffer : CommandBuffer) : Option (List Site) :=
  if config.traceUsesTraceHelpers then some []
  else
    (gather (instanceSites config) commandBuffer.instanceUses).bind fun front =>
      (gather (useSites config) commandBuffer.sbtUses).map fun rest => front ++ rest

/-- Those of a submit. -/
def submitSites (config : Config) (commandBuffers : List CommandBuffer) : Option (List Site) :=
  gather (commandSites config) commandBuffers

/-- What the fixups leave alone: a handle that is captured for no group but one with this handle in
the replay, and an address that is its own translation, or has none and is known in the replay. -/
def Kept (config : Config) : Site → List UInt8 → Prop
  | .record pipeline _, value =>
      pipeline.groupHandleSizeReplay ≤ pipeline.groupHandleSize ∧
        ∀ group ∈ findRaytracingGroupIndex pipeline value,
          (pipeline.groupHandlesReplay.drop (group * pipeline.groupHandleSizeReplay)).take
            pipeline.groupHandleSizeReplay = value.take pipeline.groupHandleSizeReplay
  | .reference _, value =>
      decode value = 0 ∨ config.remapping.translateAddress (decode value) = decode value ∨
        (config.remapping.translateAddress (decode value) = 0 ∧
          isKnownReplayAsAddress config (decode value) = true)

instance (config : Config) : ∀ (s : Site) (value : List UInt8), Decidable (Kept config s value)
  | .record _ _, _ => inferInstanceAs (Decidable (_ ∧ _))
  | .reference _, _ => inferInstanceAs (Decidable (_ ∨ _ ∨ _ ∧ _))

/-- **The condition**: what the fixups put in the places that they go through is left alone by
them, and in the other places there is nothing to translate. -/
def Settled (config : Config) (mem : Memory) (commandBuffers : List CommandBuffer) : Prop :=
  ∀ s ∈ places config commandBuffers,
    if s ∈ (submitSites config commandBuffers).getD [] then
      Kept config s (ideal config s (content (rewriting config) mem s))
    else
      ideal config s (content (rewriting config) mem s) = content (rewriting config) mem s

/-! ## Submits -/

section

variable {config : Config} {mem next : Memory} {commandBuffers : List CommandBuffer}
variable {sites : List Site} {s : Site}

/-- A submit is a run over its places. -/
theorem submit_eq : submit config mem commandBuffers =
    (submitSites config commandBuffers).bind (exec (step (rewriting config)) mem) := by
  have huse : ∀ mem use, fixupSbtUse config mem use =
      (useSites config use).bind (exec (step (rewriting config)) mem) := by
    intro mem use
    unfold fixupSbtUse useSites
    cases use.pipeline with
    | none => rfl
    | some pipeline =>
        simp only
        split_ifs
        · exact exec_gather fun _ _ => rfl
        · rfl
  have hinstance : ∀ mem use, fixupInstanceUse config mem use =
      (instanceSites config use).bind (exec (step (rewriting config)) mem) := fun _ _ => rfl
  refine exec_gather fun mem commandBuffer => ?_
  unfold replayFixupInstances replayFixupSbt commandSites
  split_ifs
  · rfl
  · rw [exec_gather hinstance]
    simp only [exec_gather huse]
    cases gather (instanceSites config) commandBuffer.instanceUses with
    | none => rfl
    | some front =>
        cases gather (useSites config) commandBuffer.sbtUses with
        | none =>
            ext final
            simp
        | some rest =>
            ext final
            simp only [Option.bind_some, Option.map_some, exec_append_eq_some_iff,
              Option.bind_eq_some_iff]

theorem kept_record {pipeline : Pipeline} {value : List UInt8} (position : Nat)
    (hlength : value.length = pipeline.groupHandleSize) :
    fixupRecord pipeline value = some value ↔ Kept config (.record pipeline position) value := by
  show _ ↔ _ ∧ _
  unfold fixupRecord
  split_ifs with hlarger
  · constructor
    · intro h
      cases h
    · intro h
      exact absurd hlarger (Nat.not_lt.mpr h.1)
  · have hsize : pipeline.groupHandleSizeReplay ≤ value.length := by omega
    cases hfind : findRaytracingGroupIndex pipeline value with
    | none => simpa using Nat.le_of_not_lt hlarger
    | some group =>
        simp only [Nat.le_of_not_lt hlarger, true_and, Option.mem_def, Option.some.injEq,
          forall_eq']
        constructor
        · intro h
          split_ifs at h with hbeyond
          have hput : putHandle pipeline group value = value := Option.some.inj h
          have htake := congrArg (List.take pipeline.groupHandleSizeReplay) hput
          rw [putHandle, List.take_append_of_le_length] at htake
          · rwa [List.take_take, Nat.min_self] at htake
          · simp only [List.length_take, List.length_drop]
            omega
        · intro htake
          have hput : putHandle pipeline group value = value := by
            rw [putHandle, htake, List.take_append_drop]
          have hwithin : ¬ group * pipeline.groupHandleSizeReplay +
              pipeline.groupHandleSizeReplay > pipeline.groupHandlesReplay.length := by
            have hlengths := congrArg List.length htake
            simp only [List.length_take, List.length_drop] at hlengths
            rcases Nat.eq_zero_or_pos pipeline.groupHandleSizeReplay with hzero | hpos
            · rw [hzero]
              omega
            · omega
          rw [if_neg hwithin, hput]

theorem kept_reference {value : List UInt8} (position : Nat) (hlength : value.length = 8) :
    fixupReference config value = some value ↔ Kept config (.reference position) value := by
  have hencode : ∀ n < 2 ^ 64, encode 8 n = value ↔ n = decode value := by
    intro n hn
    constructor
    · intro h
      rw [← h, decode_encode hn]
    · intro h
      rw [h, ← hlength, encode_decode]
  have htranslated := translateAddress_lt config.remapping (decode value)
  show _ ↔ _ ∨ _
  unfold fixupReference
  simp only
  split_ifs with hzero htranslate hknown
  · exact iff_of_true rfl (.inl hzero)
  · rw [Option.some.injEq, hencode _ htranslated]
    constructor
    · intro h
      exact .inr (.inl h)
    · intro h
      rcases h with h | h | ⟨h, -⟩
      · exact absurd h hzero
      · exact h
      · exact absurd h htranslate
  · exact iff_of_true rfl (.inr (.inr ⟨not_not.mp htranslate, hknown⟩))
  · refine iff_of_false (fun h => by cases h) fun h => ?_
    rcases h with h | h | ⟨-, h⟩
    · exact hzero h
    · exact htranslate fun h' => hzero (h.symm.trans h')
    · exact hknown h

/-- A value is left alone by its fixup exactly if it is kept. -/
theorem fixup_eq_self_iff {value : List UInt8} (hlength : value.length = s.width) :
    s.fixup config value = some value ↔ Kept config s value := by
  cases s with
  | record pipeline position => exact kept_record position hlength
  | reference position => exact kept_reference position hlength

/-- The fixups make of the values in their places what these should hold. -/
def Visits (config : Config) (s : Site) : Prop :=
  ∀ bytes bytes', s.fixup config bytes = some bytes' → bytes' = ideal config s bytes

theorem visits_reference (position : Nat) : Visits config (.reference position) := by
  intro bytes bytes' hfixup
  replace hfixup : fixupReference config bytes = some bytes' := hfixup
  unfold fixupReference at hfixup
  simp only at hfixup
  split_ifs at hfixup with hzero hnone hknown
  · cases hfixup
    rw [ideal, if_pos (.inl hzero)]
  · cases hfixup
    rw [ideal, if_neg (not_or.mpr ⟨hzero, hnone⟩)]
  · cases hfixup
    rw [ideal, if_pos (.inr (not_not.mp hnone))]

theorem visits_record {pipeline : Pipeline} (hfixable : Pipeline.fixable pipeline = true)
    (position : Nat) : Visits config (.record pipeline position) := by
  intro bytes bytes' hfixup
  have hcapture : pipeline.captureReplay = false := by
    simp only [Pipeline.fixable, Bool.and_eq_true, Bool.not_eq_true', and_assoc] at hfixable
    exact hfixable.1
  replace hfixup : fixupRecord pipeline bytes = some bytes' := hfixup
  unfold fixupRecord at hfixup
  rw [ideal, hcapture, if_neg Bool.false_ne_true]
  split_ifs at hfixup
  split at hfixup
  · cases hfixup
    rfl
  · split_ifs at hfixup
    cases hfixup
    rfl

theorem mem_regionPlaces {pipeline : Pipeline} {region : StridedRegion}
    (hsites : regionSites config pipeline region = some sites) (hs : s ∈ sites) :
    s ∈ regionPlaces config pipeline region ∧ ∃ position, s = .record pipeline position := by
  unfold regionSites at hsites
  simp only at hsites
  split_ifs at hsites with hempty hsizes hstride hlarger hlarger' hcount
  · cases hsites
    cases hs
  · cases hsites
    cases hs
  · cases hsites
    cases hs
  · cases hsites
    cases hs
  · split at hsites
    · cases hsites
    · next buffer index hfind =>
        split_ifs at hsites
        · cases hsites
          obtain ⟨i, hi, rfl⟩ := List.mem_map.mp hs
          refine ⟨?_, _, rfl⟩
          rw [regionPlaces, if_neg hempty, hfind]
          simp only [if_neg hstride]
          refine List.mem_map.mpr ⟨i, List.mem_range.mpr ?_, rfl⟩
          exact (List.mem_range.mp hi).trans_le (Nat.mod_le _ _)
        · cases hsites
          cases hs

/-- The fixups of a submit go through places of its command buffers. -/
theorem submitSites_spec (hsites : submitSites config commandBuffers = some sites)
    (hs : s ∈ sites) : s ∈ places config commandBuffers ∧ Visits config s := by
  obtain ⟨commandBuffer, hcommandBuffer, front, hfront, hs⟩ := (mem_gather hsites).mp hs
  unfold commandSites at hfront
  split_ifs at hfront
  · cases hfront
    cases hs
  · obtain ⟨instances, hinstances, hfront⟩ := Option.bind_eq_some_iff.mp hfront
    obtain ⟨records, hrecords, rfl⟩ := Option.map_eq_some_iff.mp hfront
    rcases List.mem_append.mp hs with hs | hs
    · obtain ⟨use, huse, list, hlist, hs⟩ := (mem_gather hinstances).mp hs
      constructor
      · refine List.mem_flatMap.mpr ⟨commandBuffer, hcommandBuffer, List.mem_append_left _ ?_⟩
        exact List.mem_flatMap.mpr ⟨use, huse, by rw [hlist]; exact hs⟩
      · unfold instanceSites at hlist
        simp only at hlist
        split_ifs at hlist
        · cases hlist
          cases hs
        · split at hlist
          · cases hlist
          · split_ifs at hlist
            cases hlist
            obtain ⟨i, -, rfl⟩ := List.mem_map.mp hs
            exact visits_reference _
    · obtain ⟨use, huse, list, hlist, hs⟩ := (mem_gather hrecords).mp hs
      unfold useSites at hlist
      split at hlist
      · cases hlist
        cases hs
      · next pipeline hpipeline =>
          split_ifs at hlist with hfixable
          · obtain ⟨region, hregion, list', hlist', hs⟩ := (mem_gather hlist).mp hs
            obtain ⟨hplace, position, rfl⟩ := mem_regionPlaces hlist' hs
            refine ⟨?_, visits_record hfixable position⟩
            refine List.mem_flatMap.mpr ⟨commandBuffer, hcommandBuffer, List.mem_append_right _ ?_⟩
            refine List.mem_flatMap.mpr ⟨use, huse, ?_⟩
            rw [usePlaces, hpipeline]
            exact List.mem_flatMap.mpr ⟨region, hregion, hplace⟩
          · cases hlist
            cases hs

end

/-! ## Sequences of submits -/

section

variable {config : Config} {mem next other : Memory} {family : List (List CommandBuffer)}
variable {sites : List Site}

/-- There is one memory that holds what it should. -/
theorem Fixed.unique (hnext : Fixed config mem next sites)
    (hother : Fixed config mem other sites) : next = other := by
  funext i
  by_cases hin : ∃ s ∈ sites, Within (rewriting config) s i
  · obtain ⟨s, hs, hin⟩ := hin
    have hcontent : content (rewriting config) next s = content (rewriting config) other s :=
      (hnext.translated s hs).trans (hother.translated s hs).symm
    exact eq_of_content_eq hcontent hin
  · have hout : ∀ s ∈ sites, ¬ Within (rewriting config) s i := fun s hs h => hin ⟨s, hs, h⟩
    exact (hnext.others i hout).trans (hother.others i hout).symm

theorem Fixed.congr {sites' : List Site} (hfixed : Fixed config mem next sites)
    (hmem : ∀ s, s ∈ sites ↔ s ∈ sites') : Fixed config mem next sites' where
  translated := fun s hs => hfixed.translated s ((hmem s).mpr hs)
  others := fun i hout => hfixed.others i fun s hs => hout s ((hmem s).mp hs)

/-- A place that is not gone through keeps its value. -/
theorem content_of_not_mem {all : List Site} (hsep : Separate (rewriting config) all)
    (hsites : ∀ s ∈ sites, s ∈ all) {s : Site} (hs : s ∈ all) (hnot : s ∉ sites)
    (hexec : exec (step (rewriting config)) mem sites = some next) :
    content (rewriting config) next s = content (rewriting config) mem s := by
  have hcontent := exec_content hsep hsites hs hexec
  rw [List.count_eq_zero_of_not_mem hnot] at hcontent
  exact (Option.some.inj hcontent).symm

/-- A submit that is carried out goes through the places of its command buffers. -/
theorem sites_of_submit {commandBuffers : List CommandBuffer}
    (hsubmit : (submit config mem commandBuffers).isSome) :
    ∃ sites, submitSites config commandBuffers = some sites ∧
      ∃ next, exec (step (rewriting config)) mem sites = some next := by
  obtain ⟨next, hnext⟩ := Option.isSome_iff_exists.mp hsubmit
  rw [submit_eq] at hnext
  obtain ⟨sites, hsites, hexec⟩ := Option.bind_eq_some_iff.mp hnext
  exact ⟨sites, hsites, next, hexec⟩

/-- A settled value that is gone through becomes what it should be, and stays so. -/
theorem rewrite_of_settled {all : List Site} (hsep : Separate (rewriting config) all)
    (hsub : ∀ s ∈ sites, s ∈ all) {commandBuffers : List CommandBuffer}
    (hsites : submitSites config commandBuffers = some sites)
    (hexec : exec (step (rewriting config)) mem sites = some next)
    (hsettled : Settled config mem commandBuffers) {s : Site} (hs : s ∈ sites) :
    (rewriting config).rewrite s (content (rewriting config) mem s) =
        some (ideal config s (content (rewriting config) mem s)) ∧
      (rewriting config).rewrite s (ideal config s (content (rewriting config) mem s)) =
        some (ideal config s (content (rewriting config) mem s)) := by
  obtain ⟨bytes, hbytes⟩ := rewrite_isSome hsep hsub hs hexec
  have hideal := (submitSites_spec hsites hs).2 _ _ hbytes
  have hstays := hsettled s (submitSites_spec hsites hs).1
  rw [hsites, Option.getD_some, if_pos hs] at hstays
  subst hideal
  have hlength := length_fixup config s _ _ length_content hbytes
  exact ⟨hbytes, (fixup_eq_self_iff hlength).mpr hstays⟩

/-- Two submits of the same command buffers that leave what they should show that the values are
settled. -/
theorem settled_of_fixed {commandBuffers : List CommandBuffer}
    (hsep : Separate (rewriting config) (places config commandBuffers))
    (hfirst : submit config mem commandBuffers = some next)
    (hsecond : submit config next commandBuffers = some next)
    (hfixed : Fixed config mem next (places config commandBuffers)) :
    Settled config mem commandBuffers := by
  rw [submit_eq] at hfirst hsecond
  obtain ⟨sites, hsites, hfirst⟩ := Option.bind_eq_some_iff.mp hfirst
  rw [hsites, Option.bind_some] at hsecond
  have hsub : ∀ s ∈ sites, s ∈ places config commandBuffers := fun s hs =>
    (submitSites_spec hsites hs).1
  intro s hs
  rw [hsites, Option.getD_some, ← hfixed.translated s hs]
  split_ifs with hin
  · obtain ⟨bytes, hbytes⟩ := rewrite_isSome hsep hsub hin hfirst
    have hideal := (submitSites_spec hsites hin).2 _ _ hbytes
    rw [← hfixed.translated s hs] at hideal
    subst hideal
    have hagain := settled_of_exec_exec hsep hsub hin hfirst hsecond hbytes
    exact (fixup_eq_self_iff length_content).mp hagain
  · exact content_of_not_mem hsep hsub hs hin hfirst

/-- **Settled values** are translated once by any sequence of submits. -/
theorem fixed_of_settled (hsep : Separate (rewriting config) (family.flatMap (places config)))
    (hfirst : ∀ commandBuffers ∈ family, (submit config mem commandBuffers).isSome)
    (hsettled : ∀ commandBuffers ∈ family, Settled config mem commandBuffers) :
    ∃ next, exec (submit config) mem family = some next ∧
      Fixed config mem next (family.flatMap (places config)) := by
  have hplan := fun commandBuffers hmem => sites_of_submit (hfirst commandBuffers hmem)
  have hgather : (gather (submitSites config) family).isSome :=
    gather_isSome fun commandBuffers hmem => by
      obtain ⟨sites, hsites, -⟩ := hplan commandBuffers hmem
      rw [hsites]
      rfl
  have hruns : ∀ mem commandBuffers, submit config mem commandBuffers =
      (submitSites config commandBuffers).bind (exec (step (rewriting config)) mem) :=
    fun _ _ => submit_eq
  obtain ⟨all, hall⟩ := Option.isSome_iff_exists.mp hgather
  have hsub : ∀ s ∈ all, s ∈ family.flatMap (places config) := by
    intro s hs
    obtain ⟨commandBuffers, hmem, sites, hsites, hs⟩ := (mem_gather hall).mp hs
    exact List.mem_flatMap.mpr ⟨commandBuffers, hmem, (submitSites_spec hsites hs).1⟩
  have hvisited : ∀ s ∈ all, (rewriting config).rewrite s (content (rewriting config) mem s) =
        some (ideal config s (content (rewriting config) mem s)) ∧
      (rewriting config).rewrite s (ideal config s (content (rewriting config) mem s)) =
        some (ideal config s (content (rewriting config) mem s)) := by
    intro s hs
    obtain ⟨commandBuffers, hmem, sites, hsites, hs⟩ := (mem_gather hall).mp hs
    obtain ⟨sites', hsites', next, hexec⟩ := hplan commandBuffers hmem
    cases hsites.symm.trans hsites'
    have hsubmit : ∀ s ∈ sites, s ∈ family.flatMap (places config) := fun s hs =>
      List.mem_flatMap.mpr ⟨commandBuffers, hmem, (submitSites_spec hsites hs).1⟩
    exact rewrite_of_settled hsep hsubmit hsites hexec (hsettled commandBuffers hmem) hs
  obtain ⟨next, hnext, hdone⟩ := exec_settled (separate_mono hsep hsub) fun s hs =>
    ⟨_, (hvisited s hs).1, (hvisited s hs).2⟩
  refine ⟨next, ?_, fun s hs => ?_, fun i hout => ?_⟩
  · rw [exec_gather hruns, hall, Option.bind_some, hnext]
  · by_cases hin : s ∈ all
    · exact Option.some.inj ((hdone s hin).symm.trans (hvisited s hin).1)
    · -- no submit goes through this place
      obtain ⟨commandBuffers, hmem, hplace⟩ := List.mem_flatMap.mp hs
      obtain ⟨sites, hsites, -⟩ := hplan commandBuffers hmem
      have hnot : s ∉ sites := fun h =>
        hin ((mem_gather hall).mpr ⟨commandBuffers, hmem, sites, hsites, h⟩)
      have hstays := hsettled commandBuffers hmem s hplace
      rw [hsites, Option.getD_some, if_neg hnot] at hstays
      rw [hstays]
      exact content_of_not_mem hsep hsub hs hin hnext
  · exact exec_outside hnext fun s hs => hout s (hsub s hs)

/-- **Fixups stay**: however often and in whatever order command buffers are submitted, their
records and references hold what they should, exactly if the values are settled. -/
theorem fixups_stay_iff (hsep : Separate (rewriting config) (family.flatMap (places config)))
    (hfirst : ∀ commandBuffers ∈ family, (submit config mem commandBuffers).isSome) :
    (∀ submits : List (List CommandBuffer), (∀ commandBuffers ∈ submits, commandBuffers ∈ family) →
      ∃ next, exec (submit config) mem submits = some next ∧
        Fixed config mem next (submits.flatMap (places config))) ↔
    ∀ commandBuffers ∈ family, Settled config mem commandBuffers := by
  have hpart : ∀ {submits : List (List CommandBuffer)},
      (∀ commandBuffers ∈ submits, commandBuffers ∈ family) →
        Separate (rewriting config) (submits.flatMap (places config)) := by
    intro submits hsub
    refine separate_mono hsep fun s hs => ?_
    obtain ⟨commandBuffers, hmem, hs⟩ := List.mem_flatMap.mp hs
    exact List.mem_flatMap.mpr ⟨commandBuffers, hsub commandBuffers hmem, hs⟩
  constructor
  · intro hall commandBuffers hmem
    have hone : ∀ x ∈ [commandBuffers], x ∈ family := List.forall_mem_singleton.mpr hmem
    have htwo : ∀ x ∈ [commandBuffers, commandBuffers], x ∈ family :=
      List.forall_mem_cons.mpr ⟨hmem, hone⟩
    obtain ⟨first, hfirst, hfixed⟩ := hall _ hone
    obtain ⟨second, hsecond, hfixed'⟩ := hall _ htwo
    -- both have the same places, so the second submit changes nothing
    have hsame : first = second := hfixed.unique (hfixed'.congr fun s => by simp)
    subst hsame
    obtain ⟨middle, hmiddle, hrest⟩ := exec_cons_eq_some_iff.mp hfirst
    cases hrest
    obtain ⟨middle, hmiddle', hagain⟩ := exec_cons_eq_some_iff.mp hsecond
    cases hmiddle.symm.trans hmiddle'
    obtain ⟨last, hlast, hrest⟩ := exec_cons_eq_some_iff.mp hagain
    cases hrest
    have hplaces : Fixed config mem first (places config commandBuffers) :=
      hfixed.congr fun s => by rw [List.flatMap_singleton]
    have hsepOne := hpart hone
    rw [List.flatMap_singleton] at hsepOne
    exact settled_of_fixed hsepOne hmiddle hlast hplaces
  · intro hsettled submits hsub
    exact fixed_of_settled (hpart hsub) (fun x hx => hfirst x (hsub x hx))
      fun x hx => hsettled x (hsub x hx)

end

/-! ### Examples -/

/-- A handle of 32 equal bytes. -/
def handle (byte : UInt8) : List UInt8 := List.replicate 32 byte

/-- A pipeline with two groups. -/
def twoGroups (first second : UInt8) : Pipeline where
  groupHandleSize := 32
  groupHandles := handle 1 ++ handle 2
  groupCount := 2
  captureReplay := false
  groupHandleSizeReplay := 32
  groupHandlesReplay := handle first ++ handle second

theorem oneBuffer_le : (0x1000 : UInt64).toNat + (64 : UInt64).toNat ≤ 2 ^ 64 := by decide

/-- One buffer and no acceleration structures. -/
def oneBuffer : Config where
  traceUsesTraceHelpers := false
  buffers := [⟨0x1000, 64, true, oneBuffer_le⟩]
  location := fun _ => 0
  mappable := fun _ => true
  remapping := ⟨{}, fun _ => ⟨.created, true, 0, 0⟩⟩
  accelerationStructures := []

def noRegion : StridedRegion := ⟨0, 0, 0⟩

/-- One table with one record, which holds the handle of the first group at first. -/
def oneRecord (pipeline : Pipeline) : List CommandBuffer :=
  [⟨[⟨some pipeline, ⟨0x1000, 32, 32⟩, noRegion, noRegion, noRegion⟩], []⟩]

theorem separate_oneRecord (pipeline : Pipeline) :
    Separate (rewriting oneBuffer) ([oneRecord pipeline].flatMap (places oneBuffer)) := by
  have hplaces : [oneRecord pipeline].flatMap (places oneBuffer) = [.record pipeline 0] := by
    have hfound : findBufferByReplayAddress oneBuffer.buffers 0x1000 32 =
        some (⟨0x1000, 64, true, oneBuffer_le⟩, 0) := rfl
    rw [List.flatMap_singleton]
    simp [places, oneRecord, usePlaces, SbtUse.regions, regionPlaces, noRegion, hfound]
    rfl
  rw [hplaces]
  intro a ha b hb hne
  exact absurd ((List.mem_singleton.mp ha).trans (List.mem_singleton.mp hb).symm) hne

/-- Two submits with other handles in the replay. -/
theorem fixups_stay_oneRecord :
    ∃ next, exec (submit oneBuffer) (fun _ => 1)
        [oneRecord (twoGroups 8 9), oneRecord (twoGroups 8 9)] = some next ∧
      Fixed oneBuffer (fun _ => 1) next
        ([oneRecord (twoGroups 8 9), oneRecord (twoGroups 8 9)].flatMap (places oneBuffer)) := by
  refine (fixups_stay_iff (separate_oneRecord (twoGroups 8 9)) ?_).mpr ?_ _ (by simp)
  · intro commandBuffers hmem
    rw [List.mem_singleton.mp hmem]
    rfl
  · intro commandBuffers hmem s hs
    rw [List.mem_singleton.mp hmem] at hs ⊢
    replace hs : s ∈ [Site.record (twoGroups 8 9) 0] := hs
    rw [List.mem_singleton.mp hs]
    decide

/-- **The handle of the first group in the replay** is that of the second one in the capture. -/
theorem handle_translated_twice :
    Separate (rewriting oneBuffer) ([oneRecord (twoGroups 2 3)].flatMap (places oneBuffer)) ∧
      (submit oneBuffer (fun _ => 1) (oneRecord (twoGroups 2 3))).isSome ∧
      ∃ next, exec (submit oneBuffer) (fun _ => 1)
          [oneRecord (twoGroups 2 3), oneRecord (twoGroups 2 3)] = some next ∧
        ¬ Fixed oneBuffer (fun _ => 1) next (places oneBuffer (oneRecord (twoGroups 2 3))) := by
  refine ⟨separate_oneRecord _, rfl, _, rfl, fun hfixed => ?_⟩
  have htranslated := hfixed.translated (.record (twoGroups 2 3) 0) (List.mem_singleton_self _)
  exact absurd htranslated (by decide)

end RaytracingFixups
end Lavatube
