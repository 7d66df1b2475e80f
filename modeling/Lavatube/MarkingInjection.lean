import Lavatube.Lib.ServedQueue
import Lavatube.MarkingMerge

/-!
# Injection of discovered markings

`lava-tool` goes through a trace twice.  The first pass simulates it and collects the markings that
it discovers in a queue; the second one writes the trace again, and every thread takes the entries
for its own packets out of the queue: at an update packet, at a push of constants, and at the shader
stages of a new pipeline.  At the end nothing but markings of flushes may be left.

* `writeUpdate`, `maybePatchPushConstantsInfo`, `patchPipelineShaderStageInfo` — the three places.
* `replayThread` — the packets of one thread.
* `writeOutput` — the second pass.
* `Packet.Finds`, `Shows` — which entries belong to a place, and which markings a written packet has
  there while all the rest is as it was.
* `Round` — what one packet does to the queue.
* `discovered_markings_injected` — if the tool does not give up, all that was discovered has been
  injected, and nothing else has changed.
* `writeOutput_isSome_iff` — it gives up exactly if something that was discovered has no place.
-/

namespace Lavatube
namespace MarkingInjection

open HostWriteRegions Packets UpdatePackets UpdateRewrite MarkingMerge ServedQueue Transition

/-! ### What the tool is given -/

/-- A structure of a `pNext` chain. -/
inductive ChainStructure where
  | markedOffsets (markings : MarkedOffsetsARM)
  | other (sType : UInt32) (bytes : List UInt8)
deriving DecidableEq

/-- `find_extension` and `purge_extension_parent` for markings; they are not part of this
repository. -/
structure ChainTools where
  findExtension : List ChainStructure → Option MarkedOffsetsARM
  purgeExtensionParent : List ChainStructure → List ChainStructure
  find_nil : findExtension [] = none
  find_front : ∀ markings chain, findExtension (.markedOffsets markings :: chain) = some markings

/-- What the second pass finds around it: numbers of the Vulkan headers, generated functions, the
table of pipelines, and for each packet what `output_packet_mapping` has for other threads when it
is written. -/
structure Environment where
  objectTypeBuffer : UInt32
  objectTypeImage : UInt32
  objectTypeTensor : UInt32
  objectTypePipeline : UInt32
  deviceAddressMarking : UInt32
  functionName : UInt16 → String
  readers : ExtensionReaders
  chains : ChainTools
  pipelineIndex : UInt64 → UInt32
  translate : ChangeSource → Nat → UInt32 → Option UInt32

/-- The parameters of `vkCmdPushConstants`. -/
structure PushConstants where
  layout : UInt64
  stageFlags : UInt32
  offset : UInt32
  size : UInt32
  pValues : List UInt8
deriving DecidableEq

/-- `VkPushConstantsInfo`. -/
structure PushConstantsInfo extends PushConstants where
  pNext : List ChainStructure
deriving DecidableEq

/-- `VkSpecializationInfo`, as far as it is used; `hasData` says that `pData` is there. -/
structure SpecializationInfo where
  dataSize : UInt64
  hasData : Bool
deriving DecidableEq

/-- `VkPipelineShaderStageCreateInfo`, as far as it is used. -/
structure ShaderStage where
  pNext : List ChainStructure
  pSpecializationInfo : Option SpecializationInfo
deriving DecidableEq

/-- The commands that create pipelines; a compute pipeline has one stage. -/
inductive PipelineCommand where
  | compute
  | graphics
  | rayTracing
deriving DecidableEq

/-- A packet of the input, as far as markings are concerned.  A `vkQueueSubmit` is one of the others
here; the synthetic descriptor updates that the same pass writes behind it are in
`SyntheticUpdates`. -/
inductive Body where
  | update (packet : Frame)
  | cmdPushConstants (call : PushConstants)
  | cmdPushConstants2 (khr : Bool) (info : PushConstantsInfo)
  | createPipelines (command : PipelineCommand) (infos : List (List ShaderStage))
      (pPipelines : Option (List UInt64))
  | other

/-- A packet of the input with `current` of its reader. -/
structure Packet where
  current : ChangeSource
  body : Body

/-- What is written for a packet. -/
inductive Written where
  | update (calls : List Packets.Call)
  | cmdPushConstants (call : PushConstants)
  | cmdPushConstants2 (khr : Bool) (info : PushConstantsInfo)
  | createPipelines (command : PipelineCommand) (infos : List (List ShaderStage))
  | other

/-! ### The search -/

section

variable (env : Environment) (current : ChangeSource)

/-- `update_packet_object_type`. -/
def updatePacketObjectType : PacketType → UInt32
  | .bufferUpdate | .bufferUpdate2 => env.objectTypeBuffer
  | .imageUpdate | .imageUpdate2 => env.objectTypeImage
  | .tensorUpdate => env.objectTypeTensor
  | _ => 0

/-- What `find_output_rewrite_entry` looks for; `VK_OBJECT_TYPE_UNKNOWN` is zero. -/
def isOutputEntry (type : PacketType) (update : OutputUpdatePacket) (entry : AddressRewrite) :
    Bool :=
  sameSource entry.source current &&
    (entry.objectType = 0 || entry.objectType = updatePacketObjectType env type &&
      entry.objectIndex = update.objectIndex)

/-- What `find_api_rewrite_entry` looks for. -/
def isApiEntry (entry : AddressRewrite) : Bool :=
  sameSource entry.source current && entry.objectType = 0

/-- What `find_stage_rewrite_entry` looks for. -/
def isStageEntry (objectType objectIndex stageIndex : UInt32) (entry : AddressRewrite) : Bool :=
  sameSource entry.source current && sameRewriteTarget entry objectType objectIndex stageIndex

end

/-! ### The three places -/

section

variable (env : Environment) (sorting : Sorting Entry.Before) (current : ChangeSource)
variable (queue : List AddressRewrite)

/-- An update packet in output mode: `maybe_write_rewritten_update_packet`, and
`write_output_update_packet` where that has written nothing.  The entry is erased in both cases. -/
def writeUpdate (packet : Frame) : Option (List AddressRewrite × Written) :=
  (readUpdatePacket env.readers packet).bind fun update =>
    let found := isOutputEntry env current packet.type update
    (maybeWriteRewrittenUpdatePacket env.readers sorting (env.translate current)
        current.thread.toNat packet update
        ((queue.find? found).map AddressRewrite.markings)).bind fun rewritten =>
      (match rewritten with
        | some calls => some calls
        | none => writeOutputUpdatePacket (env.translate current) current.thread.toNat packet
            update).map fun calls =>
        (queue.eraseP found, .update calls)

/-- What `maybe_patch_push_constants_info` and `patch_pipeline_shader_stage_info` have in common:
the chain with other markings in front, or nothing if the chain has the same markings already. -/
def patchChain (entry : AddressRewrite) (chain : List ChainStructure) :
    Option (Option (List ChainStructure)) :=
  (normalizeMarkedOffsets sorting (cloneMarkedOffsets entry.markings)).bind fun desired =>
    (normalizeExisting sorting ((env.chains.findExtension chain).map cloneMarkedOffsets)).map
      fun existing =>
        if compareMarkedOffsets existing (some desired) = .none then none
        else some (.markedOffsets desired :: env.chains.purgeExtensionParent chain)

/-- `maybe_patch_push_constants_info`; the inner `none` is a null pointer. -/
def maybePatchPushConstantsInfo (patched : PushConstantsInfo) :
    Option (List AddressRewrite × Option PushConstantsInfo) :=
  match queue.find? (isApiEntry current) with
  | none => some (queue, none)
  | some entry =>
      if patched.pNext ≠ [] ∧ env.chains.findExtension patched.pNext = none then none
      else
        (patchChain env sorting entry patched.pNext).map fun chain =>
          (queue.eraseP (isApiEntry current), chain.map fun pNext => { patched with pNext := pNext })

/-- `output_vkCmdPushConstants2` and `output_vkCmdPushConstants2KHR`. -/
def outputVkCmdPushConstants2 (khr : Bool) (info : PushConstantsInfo) :
    Option (List AddressRewrite × Written) :=
  (maybePatchPushConstantsInfo env sorting current queue info).map fun (queue, injected) =>
    (queue, .cmdPushConstants2 khr (injected.getD info))

/-- `output_vkCmdPushConstants`: another command is written if there is something to inject. -/
def outputVkCmdPushConstants (call : PushConstants) : Option (List AddressRewrite × Written) :=
  (maybePatchPushConstantsInfo env sorting current queue { call with pNext := [] }).map
    fun (queue, injected) =>
      match injected with
      | some patched => (queue, .cmdPushConstants2 true patched)
      | none => (queue, .cmdPushConstants call)

/-- `marked_offsets_fit_specialization_data`. -/
def markedOffsetsFitSpecializationData (markings : MarkedOffsetsARM) (stage : ShaderStage) :
    Bool :=
  match stage.pSpecializationInfo with
  | some ⟨dataSize, true⟩ =>
      if markings.count = 0 then true
      else
        match markings.pOffsets, markings.pMarkingTypes with
        | some offsets, some types =>
            (offsets.zip types).all fun (offset, type) =>
              type = env.deviceAddressMarking && offset ≤ dataSize && 8 ≤ dataSize - offset
        | _, _ => false
  | _ => false

/-- `patch_pipeline_shader_stage_info` of an entry that was found; the inner `none` is a null
pointer. -/
def patchPipelineShaderStageInfo (entry : AddressRewrite) (patched : ShaderStage) :
    Option (Option ShaderStage) :=
  match patched.pSpecializationInfo with
  | some ⟨_, true⟩ =>
      (patchChain env sorting entry patched.pNext).map fun chain =>
        chain.map fun pNext => { patched with pNext := pNext }
  | _ => none

/-- `pipeline_index_from_output_handle`; `CONTAINER_INVALID_INDEX` is the largest number. -/
def pipelineIndexFromOutputHandle (pipeline : UInt64) : UInt32 :=
  if pipeline = 0 then 0xffffffff else env.pipelineIndex pipeline

/-- One stage of a new pipeline, with its number. -/
def outputStage (pipelineIndex : UInt32) (queue : List AddressRewrite)
    (stage : ShaderStage × Nat) : Option (List AddressRewrite × ShaderStage) :=
  let found := isStageEntry current env.objectTypePipeline pipelineIndex (UInt32.ofNat stage.2)
  match queue.find? found with
  | none => some (queue, stage.1)
  | some entry =>
      if markedOffsetsFitSpecializationData env entry.markings stage.1 then
        (patchPipelineShaderStageInfo env sorting entry stage.1).map fun injected =>
          (queue.eraseP found, injected.getD stage.1)
      else none

/-- The handle of a new pipeline. -/
def outputHandle (pPipelines : Option (List UInt64)) (i : Nat) : UInt64 :=
  (pPipelines.bind fun pipelines => pipelines[i]?).getD 0

/-- One new pipeline. -/
def outputPipeline (pPipelines : Option (List UInt64)) (queue : List AddressRewrite)
    (info : List ShaderStage × Nat) : Option (List AddressRewrite × List ShaderStage) :=
  let pipelineIndex := pipelineIndexFromOutputHandle env (outputHandle pPipelines info.2)
  if pipelineIndex = 0xffffffff then some (queue, info.1)
  else serve (outputStage env sorting current pipelineIndex) queue info.1.zipIdx

/-- The loops of the commands that create pipelines. -/
def outputPipelines (command : PipelineCommand) (infos : List (List ShaderStage))
    (pPipelines : Option (List UInt64)) : Option (List AddressRewrite × Written) :=
  (serve (outputPipeline env sorting current pPipelines) queue infos.zipIdx).map
    fun (queue, patched) => (queue, .createPipelines command patched)

/-- `output_vkCreateComputePipelines`. -/
def outputVkCreateComputePipelines := outputPipelines env sorting current queue .compute

/-- `output_vkCreateGraphicsPipelines`. -/
def outputVkCreateGraphicsPipelines := outputPipelines env sorting current queue .graphics

/-- `output_vkCreateRayTracingPipelinesKHR`. -/
def outputVkCreateRayTracingPipelines := outputPipelines env sorting current queue .rayTracing

end

/-! ### The second pass -/

section

variable (env : Environment) (sorting : Sorting Entry.Before)

/-- One packet. -/
def writePacket (queue : List AddressRewrite) (packet : Packet) :
    Option (List AddressRewrite × Written) :=
  match packet.body with
  | .update frame => writeUpdate env sorting packet.current queue frame
  | .cmdPushConstants call => outputVkCmdPushConstants env sorting packet.current queue call
  | .cmdPushConstants2 khr info =>
      outputVkCmdPushConstants2 env sorting packet.current queue khr info
  | .createPipelines .compute infos pPipelines =>
      outputVkCreateComputePipelines env sorting packet.current queue infos pPipelines
  | .createPipelines .graphics infos pPipelines =>
      outputVkCreateGraphicsPipelines env sorting packet.current queue infos pPipelines
  | .createPipelines .rayTracing infos pPipelines =>
      outputVkCreateRayTracingPipelines env sorting packet.current queue infos pPipelines
  | .other => some (queue, .other)

/-- `replay_thread`. -/
def replayThread (queue : List AddressRewrite) (packets : List Packet) :
    Option (List AddressRewrite × List Written) :=
  serve (writePacket env sorting) queue packets

/-- `is_flush_markings_source`. -/
def isFlushMarkingsSource (source : ChangeSource) : Bool :=
  source.callId ≠ 0xffff && env.functionName source.callId = "vkFlushMappedMemoryRanges"

/-- `discard_ignored_flush_rewrites`. -/
def discardIgnoredFlushRewrites (queue : List AddressRewrite) : List AddressRewrite :=
  queue.filter fun entry => !isFlushMarkingsSource env entry.source

/-- The order of `rewrite_call_less`. -/
def rewriteCallLess (a b : AddressRewrite) : Prop := a.source.packet < b.source.packet

variable (order : Sorting rewriteCallLess)

/-- The queue of one thread. -/
def threadQueue (queue : List AddressRewrite) (thread : Nat) : List AddressRewrite :=
  order.sort (queue.filter fun entry => entry.source.thread.toNat = thread)

/-- One thread, with the check that is made when all threads are done; `none` stands for `DIE`, too.
A thread only touches its own queue and its own part of the output. -/
def writeThread (queue : List AddressRewrite) (packets : List Packet × Nat) :
    Option (List Written) :=
  (replayThread env sorting (threadQueue order queue packets.2) packets.1).bind
    fun (left, written) =>
      if discardIgnoredFlushRewrites env left = [] then some written else none

/-- The second pass with `--simulate`: the queue is split among the threads, and every thread writes
its packets.  An entry of a thread that is not there is an exception. -/
def writeOutput (queue : List AddressRewrite) (threads : List (List Packet)) :
    Option (List (List Written)) :=
  if ∀ entry ∈ queue, entry.source.thread.toNat < threads.length then
    threads.zipIdx.mapM (writeThread env sorting order queue)
  else none

end

/-! ## Markings at places -/

/-- A place in a packet at which markings may stand. -/
inductive Place where
  | update
  | call
  | stage (info stage : Nat)
deriving DecidableEq

/-- The markings at the front of a chain of extensions. -/
def Extension.markings : Extension → Option MarkedOffsetsARM
  | .markedOffsets markings _ => some markings
  | _ => none

section

variable (env : Environment)

/-- The markings that an input packet has at a place. -/
inductive Has : Body → Place → Option MarkedOffsetsARM → Prop
  | update {frame update} (hread : readUpdatePacket env.readers frame = some update) :
      Has (.update frame) .update (Extension.markings update.sptr)
  | cmdPushConstants (call) : Has (.cmdPushConstants call) .call none
  | cmdPushConstants2 (khr info) :
      Has (.cmdPushConstants2 khr info) .call (env.chains.findExtension info.pNext)
  | stage {command infos pPipelines i s stages stage} (hinfo : infos[i]? = some stages)
      (hstage : stages[s]? = some stage) :
      Has (.createPipelines command infos pPipelines) (.stage i s)
        (env.chains.findExtension stage.pNext)

/-- What has been written for a packet has certain markings at a place, and all but the extensions is
as it was. -/
inductive Shows : Body → Written → Place → Option MarkedOffsetsARM → Prop
  | update {frame update calls output sptr}
      (hread : readUpdatePacket env.readers frame = some update) (hwrites : WritesPacket calls output)
      (hcarries : Carries env.readers frame update sptr output) :
      Shows (.update frame) (.update calls) .update (Extension.markings sptr)
  | cmdPushConstants (call) : Shows (.cmdPushConstants call) (.cmdPushConstants call) .call none
  | injected (call chain) :
      Shows (.cmdPushConstants call) (.cmdPushConstants2 true { call with pNext := chain }) .call
        (env.chains.findExtension chain)
  | cmdPushConstants2 (khr info chain) :
      Shows (.cmdPushConstants2 khr info) (.cmdPushConstants2 khr { info with pNext := chain }) .call
        (env.chains.findExtension chain)
  | stage {command infos pPipelines patched i s stages stages' stage chain}
      (hinfo : infos[i]? = some stages) (hstage : stages[s]? = some stage)
      (hinfo' : patched[i]? = some stages')
      (hstage' : stages'[s]? = some { stage with pNext := chain }) :
      Shows (.createPipelines command infos pPipelines) (.createPipelines command patched)
        (.stage i s) (env.chains.findExtension chain)

/-- The entries that are looked for at a place. -/
inductive Packet.Finds (packet : Packet) : Place → AddressRewrite → Prop
  | update {frame update entry} (hbody : packet.body = .update frame)
      (hread : readUpdatePacket env.readers frame = some update)
      (hfound : isOutputEntry env packet.current frame.type update entry = true) :
      Finds packet .update entry
  | call {entry} (hfound : isApiEntry packet.current entry = true) : Finds packet .call entry
  | stage {command infos pPipelines i s entry}
      (hbody : packet.body = .createPipelines command infos pPipelines)
      (hindex : pipelineIndexFromOutputHandle env (outputHandle pPipelines i) ≠ 0xffffffff)
      (hfound : isStageEntry packet.current env.objectTypePipeline
        (pipelineIndexFromOutputHandle env (outputHandle pPipelines i)) (UInt32.ofNat s) entry =
          true) :
      Finds packet (.stage i s) entry

/-- These markings are there, and they are those with a property, each in any number of copies. -/
def Holds (markings : Option MarkedOffsetsARM) (property : Entry → Prop) : Prop :=
  ∃ m l, markings = some m ∧ readEntries m = some l ∧ ∀ x, x ∈ l ↔ property x

/-- One of the markings of an entry. -/
def InEntry (entry : AddressRewrite) (x : Entry) : Prop :=
  ∃ l, readEntries entry.markings = some l ∧ x ∈ l

/-- The markings of an entry are a list of their own, and short enough for the lengths of 32 bits
with which arrays are written. -/
def Sound (entry : AddressRewrite) : Prop :=
  ∃ l, IsList entry.markings l ∧ l.length < 2 ^ 29

/-- An entry has been injected into what was written for a packet. -/
def Injected (packet : Packet) (written : Written) (entry : AddressRewrite) : Prop :=
  ∃ place markings, packet.Finds env place entry ∧ Shows env packet.body written place markings ∧
    Holds markings (InEntry entry)

/-- The sizes in an update packet are right. -/
def Packet.WellSized (packet : Packet) : Prop :=
  ∀ frame, packet.body = .update frame → frame.size < 2 ^ 32 ∧
    ∀ update, readUpdatePacket env.readers frame = some update → SizeRight frame update

end

/-! ### Lists of markings that are the same -/

section

variable {sorting : Sorting Entry.Before} {markings desired : MarkedOffsetsARM} {l : List Entry}

theorem readEntries_clone : readEntries (cloneMarkedOffsets markings) = readEntries markings := by
  unfold cloneMarkedOffsets
  split_ifs with hzero
  · simp [readEntries, hzero]
  · rfl

theorem readEntries_of_compare {a b : MarkedOffsetsARM}
    (hsame : compareMarkedOffsets (some a) (some b) = .none) : readEntries a = readEntries b := by
  unfold compareMarkedOffsets at hsame
  simp only at hsame
  split_ifs at hsame with hcount hzero hmissing hmissing' hmissing'' htypes hsubTypes hoffsets
  · rw [readEntries, readEntries, if_pos hzero, if_pos (not_not.mp hcount ▸ hzero)]
  · have heq : a = b := MarkedOffsetsARM.ext (not_not.mp hcount) (not_not.mp htypes)
      (not_not.mp hsubTypes) (not_not.mp hoffsets)
    rw [heq]

/-- Normalised markings are those that they were made of. -/
theorem readEntries_of_normalize
    (hnormalized : normalizeMarkedOffsets sorting (cloneMarkedOffsets markings) = some desired)
    (hread : readEntries desired = some l) :
    ∃ l', readEntries markings = some l' ∧ ∀ x, x ∈ l' ↔ x ∈ l := by
  unfold normalizeMarkedOffsets at hnormalized
  split_ifs at hnormalized with hfew
  · cases hnormalized
    rw [readEntries_clone] at hread
    exact ⟨l, hread, fun _ => Iff.rfl⟩
  · split at hnormalized
    · cases hnormalized
    · next entries hentries =>
        cases hnormalized
        rw [readEntries_ofEntries] at hread
        cases hread
        have hzero : (cloneMarkedOffsets markings).count ≠ 0 := by
          intro hzero
          rw [hzero] at hfew
          exact hfew (by decide)
        refine ⟨entries, ?_, fun x => mem_unique.symm⟩
        rw [← readEntries_clone, readEntries, if_neg hzero, hentries]

/-- What is injected for an entry. -/
theorem desired_spec (hlist : IsList markings l)
    (hdesired : normalizeMarkedOffsets sorting (cloneMarkedOffsets markings) = some desired) :
    ∃ l', IsList desired l' ∧ l'.length ≤ l.length ∧ ∀ x, x ∈ l' ↔ x ∈ l := by
  obtain ⟨normalized, hnormalized, hresult⟩ :=
    normalize_isList sorting (clone_of_readEntries hlist.readEntries)
  rw [hdesired] at hnormalized
  cases hnormalized
  exact ⟨unique (sorting.sort l), hresult, length_unique, fun x => mem_unique⟩

/-- Short lists have arrays that fit. -/
theorem arraysFit_of_isList (hlist : IsList desired l) (hfew : l.length < 2 ^ 29) :
    desired.ArraysFit := by
  have hcount := hlist.count
  constructor
  · intro _
    omega
  · intro _
    omega
  · intro _
    omega

/-- Markings that are the same after they have been normalised. -/
theorem holds_of_compare {existing : Option MarkedOffsetsARM} {normalized : Option MarkedOffsetsARM}
    (hlist : IsList desired l)
    (hnormalized : normalizeExisting sorting (existing.map cloneMarkedOffsets) = some normalized)
    (hsame : compareMarkedOffsets normalized (some desired) = .none) :
    Holds existing (· ∈ l) := by
  cases existing with
  | none =>
      cases hnormalized
      cases hsame
  | some markings =>
      obtain ⟨result, hresult, rfl⟩ := Option.map_eq_some_iff.mp hnormalized
      have hread : readEntries result = some l :=
        (readEntries_of_compare hsame).trans hlist.readEntries
      obtain ⟨l', hl', hmem⟩ := readEntries_of_normalize hresult hread
      exact ⟨markings, l', rfl, hl', hmem⟩

theorem inEntry_iff {entry : AddressRewrite} (hlist : IsList entry.markings l) (x : Entry) :
    InEntry entry x ↔ x ∈ l := by
  constructor
  · rintro ⟨l', hread, hx⟩
    rw [hlist.readEntries] at hread
    cases hread
    exact hx
  · intro hx
    exact ⟨l, hlist.readEntries, hx⟩

theorem Holds.congr {existing : Option MarkedOffsetsARM} {property property' : Entry → Prop}
    (hholds : Holds existing property) (hiff : ∀ x, property x ↔ property' x) :
    Holds existing property' := by
  obtain ⟨m, l', hm, hread, hmem⟩ := hholds
  exact ⟨m, l', hm, hread, fun x => (hmem x).trans (hiff x)⟩

end

/-! ### Each place -/

section

variable {env : Environment} {sorting : Sorting Entry.Before} {packet : Packet}
variable {queue queue' : List AddressRewrite} {entry : AddressRewrite} {written : Written}

/-- **What a round does**: entries that leave the queue have been injected; at every place there are
the markings of an entry of the queue, or those that were there; and no entry stays that is looked
for, unless there are two. -/
structure Round (env : Environment) (packet : Packet) (written : Written)
    (queue queue' : List AddressRewrite) : Prop where
  covers : Covers (fun entry => Sound entry → Injected env packet written entry) queue queue'
  shows_ : ∀ place markings, Has env packet.body place markings →
    Shows env packet.body written place markings ∨
      ∃ entry ∈ queue, packet.Finds env place entry ∧
        (Sound entry → ∃ markings', Shows env packet.body written place markings' ∧
          Holds markings' (InEntry entry))
  clears : queue.Nodup → ∀ place markings, Has env packet.body place markings →
    ∀ entry ∈ queue', packet.Finds env place entry →
      ∃ entry' ∈ queue, entry' ≠ entry ∧ packet.Finds env place entry'

/-- A chain with the markings of an entry. -/
theorem patchChain_holds {chain : List ChainStructure} {result : Option (List ChainStructure)}
    (hpatch : patchChain env sorting entry chain = some result) (hsound : Sound entry) :
    Holds (env.chains.findExtension (result.getD chain)) (InEntry entry) := by
  obtain ⟨l, hlist, -⟩ := hsound
  obtain ⟨desired, hdesired, hpatch⟩ := Option.bind_eq_some_iff.mp hpatch
  obtain ⟨existing, hexisting, heq⟩ := Option.map_eq_some_iff.mp hpatch
  obtain ⟨l', hlist', -, hmem⟩ := desired_spec hlist hdesired
  have hiff : ∀ x, x ∈ l' ↔ InEntry entry x := fun x =>
    (hmem x).trans (inEntry_iff hlist x).symm
  split_ifs at heq with hsame
  · subst heq
    exact (holds_of_compare hlist' hexisting hsame).congr hiff
  · subst heq
    rw [Option.getD_some, env.chains.find_front]
    exact ⟨desired, l', rfl, hlist'.readEntries, hiff⟩

/-- A packet with one place, at which certain entries are looked for. -/
structure OnlyPlace (env : Environment) (packet : Packet) (place : Place)
    (found : AddressRewrite → Bool) : Prop where
  only : ∀ other markings, Has env packet.body other markings → other = place
  finds_iff : ∀ entry, packet.Finds env place entry ↔ found entry = true

/-- Nothing is found. -/
theorem round_unchanged {place : Place} {found : AddressRewrite → Bool}
    (honly : OnlyPlace env packet place found) (hfind : queue.find? found = none)
    (hshows : ∀ markings, Has env packet.body place markings →
      Shows env packet.body written place markings) : Round env packet written queue queue where
  covers := Covers.refl queue
  shows_ := fun other markings hhas => by
    obtain rfl := honly.only other markings hhas
    exact .inl (hshows markings hhas)
  clears := fun _ other markings hhas entry hentry hfinds => by
    obtain rfl := honly.only other markings hhas
    exact absurd ((honly.finds_iff entry).mp hfinds) (List.find?_eq_none.mp hfind entry hentry)

/-- The first entry that is found is taken. -/
theorem round_taken {place : Place} {found : AddressRewrite → Bool}
    (honly : OnlyPlace env packet place found) (hfind : queue.find? found = some entry)
    (hshows : Sound entry → ∃ markings, Shows env packet.body written place markings ∧
      Holds markings (InEntry entry)) : Round env packet written queue (queue.eraseP found) where
  covers := covers_eraseP hfind fun hsound => by
    obtain ⟨markings, hmarkings, hholds⟩ := hshows hsound
    exact ⟨place, markings, (honly.finds_iff entry).mpr (List.find?_some hfind), hmarkings, hholds⟩
  shows_ := fun other markings hhas => by
    obtain rfl := honly.only other markings hhas
    exact .inr ⟨entry, List.mem_of_find?_eq_some hfind,
      (honly.finds_iff entry).mpr (List.find?_some hfind), hshows⟩
  clears := fun hnodup other markings hhas left hleft hfinds => by
    obtain rfl := honly.only other markings hhas
    obtain ⟨entry', hentry', hne, hfound⟩ :=
      exists_other_of_mem_eraseP hnodup hleft ((honly.finds_iff left).mp hfinds)
    exact ⟨entry', hentry', hne, (honly.finds_iff entry').mpr hfound⟩

/-- Where nothing is found, nothing is erased. -/
theorem eraseP_of_find_none {found : AddressRewrite → Bool} (hfind : queue.find? found = none) :
    queue.eraseP found = queue :=
  List.eraseP_of_forall_not (by simpa [List.find?_eq_none] using hfind)

/-- What an update packet is compared with. -/
theorem existing_eq {sptr : Extension} {existing : Option MarkedOffsetsARM}
    (hexisting : existingMarkings sptr = some existing) :
    existing = (Extension.markings sptr).map cloneMarkedOffsets := by
  cases sptr with
  | null => exact (Option.some.inj hexisting).symm
  | markedOffsets markings pNext => exact (Option.some.inj hexisting).symm
  | other sType => cases hexisting

theorem onlyPlace_update {frame : Frame} {update : OutputUpdatePacket}
    (hbody : packet.body = .update frame)
    (hread : readUpdatePacket env.readers frame = some update) :
    OnlyPlace env packet .update (isOutputEntry env packet.current frame.type update) where
  only := fun other markings hhas => by
    rw [hbody] at hhas
    cases hhas
    rfl
  finds_iff := fun entry => by
    constructor
    · rintro ⟨hbody', hread', hfound⟩
      rw [hbody] at hbody'
      cases hbody'
      rw [hread] at hread'
      cases hread'
      exact hfound
    · exact .update hbody hread

/-- **An update packet** is written again. -/
theorem writeUpdate_round {frame : Frame} (hbody : packet.body = .update frame)
    (hsized : packet.WellSized env)
    (hwrite : writeUpdate env sorting packet.current queue frame = some (queue', written)) :
    Round env packet written queue queue' := by
  obtain ⟨hsmall, hright⟩ := hsized frame hbody
  unfold writeUpdate at hwrite
  obtain ⟨update, hread, hwrite⟩ := Option.bind_eq_some_iff.mp hwrite
  obtain ⟨rewritten, hrewritten, hwrite⟩ := Option.bind_eq_some_iff.mp hwrite
  obtain ⟨calls, hcalls, heq⟩ := Option.map_eq_some_iff.mp hwrite
  obtain ⟨rfl, rfl⟩ := Prod.mk.inj heq
  have hcopied : ∀ calls, writeOutputUpdatePacket (env.translate packet.current)
      packet.current.thread.toNat frame update = some calls →
      Shows env packet.body (.update calls) .update (Extension.markings update.sptr) := by
    intro calls hcopy
    obtain ⟨output, hwrites, hcarries⟩ :=
      writeOutputUpdatePacket_carries hread hsmall (hright update hread) hcopy
    rw [hbody]
    exact .update hread hwrites hcarries
  -- an update packet has one place, so at most one entry is looked for
  have honly := onlyPlace_update hbody hread
  cases hfind : queue.find? (isOutputEntry env packet.current frame.type update) with
  | none =>
      rw [hfind] at hrewritten
      cases hrewritten
      rw [eraseP_of_find_none hfind]
      refine round_unchanged honly hfind fun markings hhas => ?_
      rw [hbody] at hhas
      cases hhas with
      | update hread' =>
          rw [hread] at hread'
          cases hread'
          exact hcopied calls hcalls
  | some entry =>
      rw [hfind, Option.map_some, maybeWriteRewrittenUpdatePacket] at hrewritten
      -- the entry is taken out of the queue whether or not the packet is changed
      refine round_taken honly hfind ?_
      rintro ⟨l, hlist, hfew⟩
      split_ifs at hrewritten with hversion
      obtain ⟨existing, hexisting, hrewritten⟩ := Option.bind_eq_some_iff.mp hrewritten
      obtain ⟨desired, hdesired, hrewritten⟩ := Option.bind_eq_some_iff.mp hrewritten
      obtain ⟨normalized, hnormalized, hrewritten⟩ := Option.bind_eq_some_iff.mp hrewritten
      obtain ⟨l', hlist', hle, hmem⟩ := desired_spec hlist hdesired
      have hiff : ∀ x, x ∈ l' ↔ InEntry entry x := fun x =>
        (hmem x).trans (inEntry_iff hlist x).symm
      split_ifs at hrewritten with hsame
      · -- the packet has these markings already
        cases hrewritten
        rw [existing_eq hexisting] at hnormalized
        have hholds : Holds (Extension.markings update.sptr) (· ∈ l') :=
          holds_of_compare hlist' hnormalized hsame
        exact ⟨_, hcopied calls hcalls, hholds.congr hiff⟩
      -- other markings: the packet is written again with those of the entry
      · obtain ⟨handles, hhandles, heq⟩ := Option.map_eq_some_iff.mp hrewritten
        subst heq
        cases hcalls
        have hcarries := (rewritten_carries_iff hread hsmall hversion (clone_normalized hdesired)
          hhandles).mpr (arraysFit_of_isList hlist' (hle.trans_lt hfew))
        refine ⟨some desired, ?_, desired, l', rfl, hlist'.readEntries, hiff⟩
        rw [hbody]
        exact .update hread (writesPacket_packetCalls _ _) hcarries

/-- What becomes of the structure of a push of constants. -/
theorem maybePatchPushConstantsInfo_spec {info : PushConstantsInfo}
    {injected : Option PushConstantsInfo}
    (hpatch : maybePatchPushConstantsInfo env sorting packet.current queue info =
      some (queue', injected)) :
    (queue.find? (isApiEntry packet.current) = none ∧ injected = none ∧ queue' = queue) ∨
      ∃ entry chain, queue.find? (isApiEntry packet.current) = some entry ∧
        patchChain env sorting entry info.pNext = some chain ∧
        injected = chain.map (fun pNext => { info with pNext := pNext }) ∧
        queue' = queue.eraseP (isApiEntry packet.current) := by
  unfold maybePatchPushConstantsInfo at hpatch
  cases hfind : queue.find? (isApiEntry packet.current) with
  | none =>
      rw [hfind] at hpatch
      cases hpatch
      exact .inl ⟨rfl, rfl, rfl⟩
  | some entry =>
      rw [hfind] at hpatch
      simp only at hpatch
      split_ifs at hpatch
      obtain ⟨chain, hchain, heq⟩ := Option.map_eq_some_iff.mp hpatch
      obtain ⟨rfl, rfl⟩ := Prod.mk.inj heq
      exact .inr ⟨entry, chain, rfl, hchain, rfl, rfl⟩

theorem onlyPlace_call (hcall : ∀ other markings, Has env packet.body other markings →
    other = .call) : OnlyPlace env packet .call (isApiEntry packet.current) where
  only := hcall
  finds_iff := fun entry => by
    constructor
    · intro hfinds
      cases hfinds with
      | call hfound => exact hfound
    · exact .call

/-- **A push of constants with a structure.** -/
theorem outputVkCmdPushConstants2_round {khr : Bool} {info : PushConstantsInfo}
    (hbody : packet.body = .cmdPushConstants2 khr info)
    (hwrite : outputVkCmdPushConstants2 env sorting packet.current queue khr info =
      some (queue', written)) : Round env packet written queue queue' := by
  obtain ⟨⟨left, injected⟩, hpatch, heq⟩ := Option.map_eq_some_iff.mp hwrite
  obtain ⟨rfl, rfl⟩ := Prod.mk.inj heq
  have honly : OnlyPlace env packet .call (isApiEntry packet.current) := by
    refine onlyPlace_call fun other markings hhas => ?_
    rw [hbody] at hhas
    cases hhas
    rfl
  rcases maybePatchPushConstantsInfo_spec hpatch with
    ⟨hfind, rfl, rfl⟩ | ⟨entry, chain, hfind, hchain, rfl, rfl⟩
  · refine round_unchanged honly hfind fun markings hhas => ?_
    rw [hbody] at hhas ⊢
    cases hhas
    exact .cmdPushConstants2 khr info info.pNext
  · refine round_taken honly hfind fun hsound => ?_
    refine ⟨_, ?_, patchChain_holds hchain hsound⟩
    rw [hbody]
    cases chain with
    | none => exact .cmdPushConstants2 khr info info.pNext
    | some pNext => exact .cmdPushConstants2 khr info pNext

/-- **A push of constants without one.**  There are no markings before, so some are injected. -/
theorem outputVkCmdPushConstants_round {call : PushConstants}
    (hbody : packet.body = .cmdPushConstants call)
    (hwrite : outputVkCmdPushConstants env sorting packet.current queue call =
      some (queue', written)) : Round env packet written queue queue' := by
  obtain ⟨⟨left, injected⟩, hpatch, heq⟩ := Option.map_eq_some_iff.mp hwrite
  have honly : OnlyPlace env packet .call (isApiEntry packet.current) := by
    refine onlyPlace_call fun other markings hhas => ?_
    rw [hbody] at hhas
    cases hhas
    rfl
  rcases maybePatchPushConstantsInfo_spec hpatch with
    ⟨hfind, rfl, rfl⟩ | ⟨entry, chain, hfind, hchain, rfl, rfl⟩
  · obtain ⟨rfl, rfl⟩ := Prod.mk.inj heq
    refine round_unchanged honly hfind fun markings hhas => ?_
    rw [hbody] at hhas ⊢
    cases hhas
    exact .cmdPushConstants call
  · cases chain with
    | none =>
        obtain ⟨rfl, rfl⟩ := Prod.mk.inj heq
        refine round_taken honly hfind fun hsound => ?_
        obtain ⟨m, l, hm, -⟩ := patchChain_holds hchain hsound
        rw [Option.getD_none, env.chains.find_nil] at hm
        cases hm
    | some pNext =>
        obtain ⟨rfl, rfl⟩ := Prod.mk.inj heq
        refine round_taken honly hfind fun hsound => ?_
        refine ⟨_, ?_, patchChain_holds hchain hsound⟩
        rw [hbody]
        exact .injected call pNext

/-! ### Pipelines -/

/-- An entry has been injected into a stage. -/
def StagePut (env : Environment) (current : ChangeSource) (pipelineIndex : UInt32)
    (stage : ShaderStage × Nat) (stage' : ShaderStage) (entry : AddressRewrite) : Prop :=
  isStageEntry current env.objectTypePipeline pipelineIndex (UInt32.ofNat stage.2) entry = true ∧
    ∃ chain, stage' = { stage.1 with pNext := chain } ∧
      Holds (env.chains.findExtension chain) (InEntry entry)

/-- A stage is as it was, or an entry has been injected. -/
def StageMade (env : Environment) (current : ChangeSource) (pipelineIndex : UInt32)
    (queue : List AddressRewrite) (stage : ShaderStage × Nat) (stage' : ShaderStage) : Prop :=
  stage' = stage.1 ∨ ∃ entry ∈ queue,
    isStageEntry current env.objectTypePipeline pipelineIndex (UInt32.ofNat stage.2) entry = true ∧
      (Sound entry → ∃ chain, stage' = { stage.1 with pNext := chain } ∧
        Holds (env.chains.findExtension chain) (InEntry entry))

theorem StageMade.mono {current : ChangeSource} {pipelineIndex : UInt32}
    {stage : ShaderStage × Nat} {stage' : ShaderStage} (hsub : queue'.Sublist queue)
    (hmade : StageMade env current pipelineIndex queue' stage stage') :
    StageMade env current pipelineIndex queue stage stage' := by
  rcases hmade with hsame | ⟨entry, hentry, hrest⟩
  · exact .inl hsame
  · exact .inr ⟨entry, hsub.subset hentry, hrest⟩

/-- **One stage.** -/
theorem outputStage_spec {current : ChangeSource} {pipelineIndex : UInt32}
    {stage : ShaderStage × Nat} {stage' : ShaderStage}
    (hwrite : outputStage env sorting current pipelineIndex queue stage = some (queue', stage')) :
    Covers (fun entry => Sound entry → StagePut env current pipelineIndex stage stage' entry) queue
        queue' ∧
      StageMade env current pipelineIndex queue stage stage' := by
  unfold outputStage at hwrite
  simp only at hwrite
  split at hwrite
  · cases hwrite
    exact ⟨Covers.refl queue, .inl rfl⟩
  · next entry hfind =>
      split_ifs at hwrite
      obtain ⟨injected, hinjected, heq⟩ := Option.map_eq_some_iff.mp hwrite
      obtain ⟨rfl, rfl⟩ := Prod.mk.inj heq
      unfold patchPipelineShaderStageInfo at hinjected
      split at hinjected
      · obtain ⟨chain, hchain, rfl⟩ := Option.map_eq_some_iff.mp hinjected
        -- a chain that has these markings already is not replaced
        have hput : Sound entry → ∃ pNext,
            (chain.map fun pNext => { stage.1 with pNext := pNext }).getD stage.1 =
              { stage.1 with pNext := pNext } ∧
            Holds (env.chains.findExtension pNext) (InEntry entry) := by
          intro hsound
          refine ⟨chain.getD stage.1.pNext, ?_, patchChain_holds hchain hsound⟩
          cases chain with
          | none => rfl
          | some pNext => rfl
        have hfound := List.find?_some hfind
        exact ⟨covers_eraseP hfind fun hsound => ⟨hfound, hput hsound⟩,
          .inr ⟨entry, List.mem_of_find?_eq_some hfind, hfound, hput⟩⟩
      · cases hinjected

/-- An entry that a stage looks for is gone, unless there are two. -/
theorem outputStage_clears {current : ChangeSource} {pipelineIndex : UInt32}
    {stage : ShaderStage × Nat} {stage' : ShaderStage} (hnodup : queue.Nodup)
    (hwrite : outputStage env sorting current pipelineIndex queue stage = some (queue', stage'))
    (hentry : entry ∈ queue')
    (hfound : isStageEntry current env.objectTypePipeline pipelineIndex (UInt32.ofNat stage.2)
      entry = true) :
    ∃ entry' ∈ queue, entry' ≠ entry ∧ isStageEntry current env.objectTypePipeline pipelineIndex
      (UInt32.ofNat stage.2) entry' = true := by
  unfold outputStage at hwrite
  simp only at hwrite
  split at hwrite
  · next hfind =>
      cases hwrite
      exact absurd hfound (List.find?_eq_none.mp hfind entry hentry)
  · split_ifs at hwrite
    obtain ⟨injected, -, heq⟩ := Option.map_eq_some_iff.mp hwrite
    obtain ⟨rfl, rfl⟩ := Prod.mk.inj heq
    exact exists_other_of_mem_eraseP hnodup hentry hfound

theorem getElem?_zipIdx_eq_some {A : Type} {l : List A} {i : Nat} {a : A × Nat}
    (hget : l.zipIdx[i]? = some a) : l[i]? = some a.1 ∧ a.2 = i := by
  rw [List.getElem?_zipIdx, Option.map_eq_some_iff] at hget
  obtain ⟨x, hx, rfl⟩ := hget
  exact ⟨hx, Nat.zero_add i⟩

theorem getElem?_zipIdx_of_eq_some {A : Type} {l : List A} {i : Nat} {a : A}
    (hget : l[i]? = some a) : l.zipIdx[i]? = some (a, i) := by
  rw [List.getElem?_zipIdx, hget, Option.map_some, Nat.zero_add]

theorem finds_stage_iff {command : PipelineCommand} {infos : List (List ShaderStage)}
    {pPipelines : Option (List UInt64)} {i s : Nat}
    (hbody : packet.body = .createPipelines command infos pPipelines) :
    packet.Finds env (.stage i s) entry ↔
      pipelineIndexFromOutputHandle env (outputHandle pPipelines i) ≠ 0xffffffff ∧
        isStageEntry packet.current env.objectTypePipeline
          (pipelineIndexFromOutputHandle env (outputHandle pPipelines i)) (UInt32.ofNat s) entry =
            true := by
  constructor
  · intro hfinds
    cases hfinds with
    | stage hbody' hindex hfound =>
        rw [hbody] at hbody'
        cases hbody'
        exact ⟨hindex, hfound⟩
  · rintro ⟨hindex, hfound⟩
    exact .stage hbody hindex hfound

/-- An entry has been injected into a stage of a pipeline. -/
def PipelinePut (env : Environment) (current : ChangeSource) (pipelineIndex : UInt32)
    (stages stages' : List ShaderStage) (entry : AddressRewrite) : Prop :=
  pipelineIndex ≠ 0xffffffff ∧ ∃ (s : Nat) (stage stage' : ShaderStage), stages[s]? = some stage ∧
    stages'[s]? = some stage' ∧ StagePut env current pipelineIndex (stage, s) stage' entry

/-- The stages of a pipeline; nothing is looked for if it has no index. -/
structure PipelineMade (env : Environment) (current : ChangeSource) (pipelineIndex : UInt32)
    (queue : List AddressRewrite) (stages stages' : List ShaderStage) : Prop where
  length : stages'.length = stages.length
  unchanged : pipelineIndex = 0xffffffff → stages' = stages
  made : ∀ (s : Nat) (stage stage' : ShaderStage), stages[s]? = some stage →
    stages'[s]? = some stage' → StageMade env current pipelineIndex queue (stage, s) stage'

theorem PipelineMade.mono {current : ChangeSource} {pipelineIndex : UInt32}
    {stages stages' : List ShaderStage} (hsub : queue'.Sublist queue)
    (hmade : PipelineMade env current pipelineIndex queue' stages stages') :
    PipelineMade env current pipelineIndex queue stages stages' where
  length := hmade.length
  unchanged := hmade.unchanged
  made := fun s stage stage' hstage hstage' => (hmade.made s stage stage' hstage hstage').mono hsub

/-- **One pipeline.** -/
theorem outputPipeline_spec {current : ChangeSource} {pPipelines : Option (List UInt64)}
    {info : List ShaderStage × Nat} {stages' : List ShaderStage}
    (hwrite : outputPipeline env sorting current pPipelines queue info =
      some (queue', stages')) :
    Covers (fun entry => Sound entry → PipelinePut env current
        (pipelineIndexFromOutputHandle env (outputHandle pPipelines info.2)) info.1 stages' entry)
        queue queue' ∧
      PipelineMade env current
        (pipelineIndexFromOutputHandle env (outputHandle pPipelines info.2)) queue info.1
        stages' := by
  unfold outputPipeline at hwrite
  simp only at hwrite
  generalize pipelineIndexFromOutputHandle env (outputHandle pPipelines info.2) = index
    at hwrite ⊢
  split_ifs at hwrite with hindex
  · cases hwrite
    refine ⟨Covers.refl queue, rfl, fun _ => rfl, fun s stage stage' hstage hstage' => .inl ?_⟩
    exact Option.some.inj (hstage'.symm.trans hstage)
  -- the stages are served one after the other with what is left of the queue
  · have hcovers := serve_covers
      (fun stage stage' entry => Sound entry → StagePut env current index stage stage' entry)
      (fun _ _ _ _ _ hround => (outputStage_spec hround).1) hwrite
    have hmade := serve_at (fun queue stage stage' => StageMade env current index queue stage stage')
      (fun _ _ _ _ _ hround => ⟨(outputStage_spec hround).1.sublist, (outputStage_spec hround).2⟩)
      (fun _ _ _ _ hsub hmade => hmade.mono hsub) hwrite
    refine ⟨hcovers.mono fun entry hput hsound => ?_, ?_, fun heq => absurd heq hindex, ?_⟩
    · obtain ⟨s, stage, stage', hstage, hstage', hput⟩ := hput
      obtain ⟨hget, hnumber⟩ := getElem?_zipIdx_eq_some hstage
      obtain ⟨stage, number⟩ := stage
      obtain rfl : number = s := hnumber
      exact ⟨hindex, number, stage, stage', hget, hstage', hput hsound⟩
    · rw [serve_length hwrite, List.length_zipIdx]
    · intro s stage stage' hstage hstage'
      exact hmade s (stage, s) stage' (getElem?_zipIdx_of_eq_some hstage) hstage'

/-- An entry that a stage of a pipeline looks for is gone, unless there are two. -/
theorem outputPipeline_clears {current : ChangeSource} {pPipelines : Option (List UInt64)}
    {info : List ShaderStage × Nat} {stages' : List ShaderStage} {s : Nat} {stage : ShaderStage}
    (hnodup : queue.Nodup)
    (hwrite : outputPipeline env sorting current pPipelines queue info = some (queue', stages'))
    (hindex : pipelineIndexFromOutputHandle env (outputHandle pPipelines info.2) ≠ 0xffffffff)
    (hstage : info.1[s]? = some stage) (hentry : entry ∈ queue')
    (hfound : isStageEntry current env.objectTypePipeline
      (pipelineIndexFromOutputHandle env (outputHandle pPipelines info.2)) (UInt32.ofNat s) entry =
        true) :
    ∃ entry' ∈ queue, entry' ≠ entry ∧ isStageEntry current env.objectTypePipeline
      (pipelineIndexFromOutputHandle env (outputHandle pPipelines info.2)) (UInt32.ofNat s)
        entry' = true := by
  unfold outputPipeline at hwrite
  simp only at hwrite
  generalize pipelineIndexFromOutputHandle env (outputHandle pPipelines info.2) = index
    at hwrite hindex hfound ⊢
  rw [if_neg hindex] at hwrite
  have hclears := serve_clears
    (fun stage entry => isStageEntry current env.objectTypePipeline index (UInt32.ofNat stage.2)
      entry = true)
    (fun _ _ _ _ _ hnodup hround => ⟨(outputStage_spec hround).1.sublist,
      fun _ hentry hfound => outputStage_clears hnodup hround hentry hfound⟩) hnodup hwrite
  have hmem : (stage, s) ∈ info.1.zipIdx :=
    List.mem_of_getElem? (getElem?_zipIdx_of_eq_some hstage)
  exact hclears.2 (stage, s) hmem entry hentry hfound

/-- **The commands that create pipelines.** -/
theorem outputPipelines_round {command : PipelineCommand} {infos : List (List ShaderStage)}
    {pPipelines : Option (List UInt64)}
    (hbody : packet.body = .createPipelines command infos pPipelines)
    (hwrite : outputPipelines env sorting packet.current queue command infos pPipelines =
      some (queue', written)) : Round env packet written queue queue' := by
  obtain ⟨⟨left, patched⟩, hserve, heq⟩ := Option.map_eq_some_iff.mp hwrite
  obtain ⟨rfl, rfl⟩ := Prod.mk.inj heq
  have hcovers := serve_covers
    (fun info stages' entry => Sound entry → PipelinePut env packet.current
      (pipelineIndexFromOutputHandle env (outputHandle pPipelines info.2)) info.1 stages' entry)
    (fun _ _ _ _ _ hround => (outputPipeline_spec hround).1) hserve
  have hmade := serve_at
    (fun queue (info : List ShaderStage × Nat) stages' => PipelineMade env packet.current
      (pipelineIndexFromOutputHandle env (outputHandle pPipelines info.2)) queue info.1 stages')
    (fun _ _ _ _ _ hround =>
      ⟨(outputPipeline_spec hround).1.sublist, (outputPipeline_spec hround).2⟩)
    (fun _ _ _ _ hsub hmade => hmade.mono hsub) hserve
  constructor
  -- what is taken out of the queue has been injected
  · refine hcovers.mono fun entry hput hsound => ?_
    obtain ⟨i, info, stages', hinfo, hinfo', hput⟩ := hput
    obtain ⟨hget, hnumber⟩ := getElem?_zipIdx_eq_some hinfo
    obtain ⟨hindex, s, stage, stage', hstage, hstage', hfound, chain, rfl, hholds⟩ := hput hsound
    rw [hnumber] at hindex hfound
    refine ⟨.stage i s, _, .stage hbody hindex hfound, ?_, hholds⟩
    rw [hbody]
    exact .stage hget hstage hinfo' hstage'
  -- a stage keeps its markings or has those of an entry
  · intro place markings hhas
    rw [hbody] at hhas
    cases hhas with
    | @stage _ _ _ i s stages stage hinfo hstage =>
        obtain ⟨stages', hinfo'⟩ := exists_made hserve (getElem?_zipIdx_of_eq_some hinfo)
        have hpipeline := hmade i (stages, i) stages' (getElem?_zipIdx_of_eq_some hinfo) hinfo'
        have hlt : s < stages'.length := by
          rw [hpipeline.length]
          exact (List.getElem?_eq_some_iff.mp hstage).1
        have hstage' : stages'[s]? = some stages'[s] := List.getElem?_eq_getElem hlt
        have hsame : stages'[s] = stage → Shows env packet.body (.createPipelines command patched)
            (.stage i s) (env.chains.findExtension stage.pNext) := by
          intro heq
          rw [heq] at hstage'
          rw [hbody]
          exact .stage hinfo hstage hinfo' hstage'
        by_cases hindex :
            pipelineIndexFromOutputHandle env (outputHandle pPipelines i) = 0xffffffff
        · refine .inl (hsame ?_)
          have heq := hpipeline.unchanged hindex
          subst heq
          exact Option.some.inj (hstage'.symm.trans hstage)
        · rcases hpipeline.made s stage _ hstage hstage' with heq | ⟨entry, hentry, hfound, hput⟩
          · exact .inl (hsame heq)
          · refine .inr ⟨entry, hentry, .stage hbody hindex hfound, fun hsound => ?_⟩
            obtain ⟨chain, heq, hholds⟩ := hput hsound
            rw [heq] at hstage'
            refine ⟨_, ?_, hholds⟩
            rw [hbody]
            exact .stage hinfo hstage hinfo' hstage'
  -- nothing that was looked for is left, unless there were two
  · intro hnodup place markings hhas entry hentry hfinds
    rw [hbody] at hhas
    cases hhas with
    | @stage _ _ _ i s stages stage hinfo hstage =>
        obtain ⟨hindex, hfound⟩ := (finds_stage_iff hbody).mp hfinds
        have hclears := serve_clears
          (fun info entry =>
            pipelineIndexFromOutputHandle env (outputHandle pPipelines info.2) ≠ 0xffffffff ∧
              (∃ stage, info.1[s]? = some stage) ∧ isStageEntry packet.current
                env.objectTypePipeline (pipelineIndexFromOutputHandle env
                  (outputHandle pPipelines info.2)) (UInt32.ofNat s) entry = true)
          (fun info _ queue stages' queue' hnodup hround => ⟨(outputPipeline_spec hround).1.sublist,
            fun entry hentry ⟨hindex, ⟨stage, hstage⟩, hfound⟩ => by
              obtain ⟨entry', hentry', hne, hfound'⟩ :=
                outputPipeline_clears hnodup hround hindex hstage hentry hfound
              exact ⟨entry', hentry', hne, hindex, ⟨stage, hstage⟩, hfound'⟩⟩) hnodup hserve
        have hmem : (stages, i) ∈ infos.zipIdx :=
          List.mem_of_getElem? (getElem?_zipIdx_of_eq_some hinfo)
        obtain ⟨entry', hentry', hne, -, -, hfound'⟩ :=
          hclears.2 (stages, i) hmem entry hentry ⟨hindex, ⟨stage, hstage⟩, hfound⟩
        exact ⟨entry', hentry', hne, (finds_stage_iff hbody).mpr ⟨hindex, hfound'⟩⟩

/-! ## Runs -/

/-- What is written for a packet is the same command with the same parts; only a push of constants
without a structure may become one with a structure. -/
def SameCommand : Body → Written → Prop
  | .update _, .update _ => True
  | .cmdPushConstants _, .cmdPushConstants _ => True
  | .cmdPushConstants _, .cmdPushConstants2 khr _ => khr = true
  | .cmdPushConstants2 khr _, .cmdPushConstants2 khr' _ => khr = khr'
  | .createPipelines command infos _, .createPipelines command' infos' =>
      command = command' ∧ infos'.map List.length = infos.map List.length
  | .other, .other => True
  | _, _ => False

/-- Pipelines keep their numbers of stages. -/
theorem outputPipelines_sameCommand {current : ChangeSource} {command : PipelineCommand}
    {infos : List (List ShaderStage)} {pPipelines : Option (List UInt64)}
    (hwrite : outputPipelines env sorting current queue command infos pPipelines =
      some (queue', written)) : SameCommand (.createPipelines command infos pPipelines) written := by
  obtain ⟨⟨left, patched⟩, hserve, heq⟩ := Option.map_eq_some_iff.mp hwrite
  obtain ⟨rfl, rfl⟩ := Prod.mk.inj heq
  refine ⟨rfl, List.ext_getElem? fun i => ?_⟩
  have hmade := serve_at
    (fun _ (info : List ShaderStage × Nat) (stages' : List ShaderStage) =>
      stages'.length = info.1.length)
    (fun _ _ _ _ _ hround =>
      ⟨(outputPipeline_spec hround).1.sublist, (outputPipeline_spec hround).2.length⟩)
    (fun _ _ _ _ _ hmade => hmade) hserve
  rw [List.getElem?_map, List.getElem?_map]
  cases hinfo : infos[i]? with
  | none =>
      have hlength : patched.length = infos.length := by
        rw [serve_length hserve, List.length_zipIdx]
      have hnone : patched[i]? = none := by
        rw [List.getElem?_eq_none_iff, hlength]
        exact List.getElem?_eq_none_iff.mp hinfo
      rw [hnone]
  | some stages =>
      have hget := getElem?_zipIdx_of_eq_some hinfo
      obtain ⟨stages', hstages'⟩ := exists_made hserve hget
      rw [hstages', Option.map_some, Option.map_some, hmade i _ stages' hget hstages']

/-- **One packet.** -/
theorem writePacket_round (hsized : packet.WellSized env)
    (hwrite : writePacket env sorting queue packet = some (queue', written)) :
    SameCommand packet.body written ∧ Round env packet written queue queue' := by
  unfold writePacket at hwrite
  split at hwrite
  · next frame hbody =>
      have hround := writeUpdate_round hbody hsized hwrite
      obtain ⟨update, -, hwrite⟩ := Option.bind_eq_some_iff.mp hwrite
      obtain ⟨rewritten, -, hwrite⟩ := Option.bind_eq_some_iff.mp hwrite
      obtain ⟨calls, -, heq⟩ := Option.map_eq_some_iff.mp hwrite
      cases heq
      rw [hbody]
      exact ⟨trivial, hround⟩
  · next call hbody =>
      have hround := outputVkCmdPushConstants_round hbody hwrite
      obtain ⟨⟨left, injected⟩, -, heq⟩ := Option.map_eq_some_iff.mp hwrite
      rw [hbody]
      cases injected with
      | none =>
          cases heq
          exact ⟨trivial, hround⟩
      | some patched =>
          cases heq
          exact ⟨rfl, hround⟩
  · next khr info hbody =>
      have hround := outputVkCmdPushConstants2_round hbody hwrite
      obtain ⟨⟨left, injected⟩, -, heq⟩ := Option.map_eq_some_iff.mp hwrite
      cases heq
      rw [hbody]
      exact ⟨rfl, hround⟩
  · next infos pPipelines hbody =>
      rw [hbody]
      exact ⟨outputPipelines_sameCommand hwrite, outputPipelines_round hbody hwrite⟩
  · next infos pPipelines hbody =>
      rw [hbody]
      exact ⟨outputPipelines_sameCommand hwrite, outputPipelines_round hbody hwrite⟩
  · next infos pPipelines hbody =>
      rw [hbody]
      exact ⟨outputPipelines_sameCommand hwrite, outputPipelines_round hbody hwrite⟩
  · next hbody =>
      cases hwrite
      rw [hbody]
      have hnone : ∀ place markings, ¬ Has env packet.body place markings := by
        intro place markings hhas
        rw [hbody] at hhas
        cases hhas
      exact ⟨trivial, Covers.refl queue, fun place markings hhas => absurd hhas (hnone _ _),
        fun _ place markings hhas => absurd hhas (hnone _ _)⟩

/-- What a place has after a run that began with a queue. -/
def Settled (env : Environment) (queue : List AddressRewrite) (packet : Packet)
    (written : Written) : Prop :=
  SameCommand packet.body written ∧ ∀ place markings, Has env packet.body place markings →
    Shows env packet.body written place markings ∨
      ∃ entry ∈ queue, packet.Finds env place entry ∧
        (Sound entry → ∃ markings', Shows env packet.body written place markings' ∧
          Holds markings' (InEntry entry))

theorem Settled.mono (hsub : ∀ entry ∈ queue', entry ∈ queue)
    (hsettled : Settled env queue' packet written) : Settled env queue packet written := by
  refine ⟨hsettled.1, fun place markings hhas => ?_⟩
  rcases hsettled.2 place markings hhas with hsame | ⟨entry, hentry, hrest⟩
  · exact .inl hsame
  · exact .inr ⟨entry, hsub entry hentry, hrest⟩

variable {packets : List Packet} {writtens : List Written}

/-- **One thread.** -/
theorem replayThread_spec (hsized : ∀ packet ∈ packets, packet.WellSized env)
    (hreplay : replayThread env sorting queue packets = some (queue', writtens)) :
    writtens.length = packets.length ∧
      Covers (fun entry => At packets writtens fun packet written =>
        Sound entry → Injected env packet written entry) queue queue' ∧
      ∀ (i : Nat) (packet : Packet) (written : Written), packets[i]? = some packet →
        writtens[i]? = some written → Settled env queue packet written := by
  refine ⟨serve_length hreplay, ?_, ?_⟩
  · exact serve_covers (fun packet written entry => Sound entry → Injected env packet written entry)
      (fun packet hpacket _ _ _ hround =>
        (writePacket_round (hsized packet hpacket) hround).2.covers) hreplay
  · refine serve_at (Settled env) (fun packet hpacket _ _ _ hround => ?_) ?_ hreplay
    · obtain ⟨hsame, hround⟩ := writePacket_round (hsized packet hpacket) hround
      exact ⟨hround.covers.sublist, hsame, hround.shows_⟩
    · intro _ _ _ _ hsub hsettled
      exact hsettled.mono fun _ hentry => hsub.subset hentry

/-- A thread that passes the check has injected all entries but those of flushes. -/
theorem writeThread_spec {order : Sorting rewriteCallLess} {thread : Nat}
    (hsized : ∀ packet ∈ packets, packet.WellSized env)
    (hwrite : writeThread env sorting order queue (packets, thread) = some writtens) :
    writtens.length = packets.length ∧
      (∀ entry ∈ queue, entry.source.thread.toNat = thread → Sound entry →
        isFlushMarkingsSource env entry.source = true ∨
          At packets writtens fun packet written => Injected env packet written entry) ∧
      ∀ (i : Nat) (packet : Packet) (written : Written), packets[i]? = some packet →
        writtens[i]? = some written → Settled env queue packet written := by
  obtain ⟨⟨left, result⟩, hreplay, hcheck⟩ := Option.bind_eq_some_iff.mp hwrite
  simp only at hcheck
  split_ifs at hcheck with hleft
  cases hcheck
  obtain ⟨hlength, hcovers, hsettled⟩ := replayThread_spec hsized hreplay
  have hmem : ∀ entry, entry ∈ threadQueue order queue thread ↔
      entry ∈ queue ∧ entry.source.thread.toNat = thread := by
    intro entry
    rw [threadQueue, order.mem_sort, List.mem_filter, decide_eq_true_eq]
  refine ⟨hlength, fun entry hentry hthread hsound => ?_, fun i packet written hpacket hwritten => ?_⟩
  · rcases hcovers.left entry ((hmem entry).mpr ⟨hentry, hthread⟩) with hremains | hput
    · left
      -- the check refuses what is left in the queue, unless it is of a flush
      by_contra hflush
      have hin : entry ∈ discardIgnoredFlushRewrites env left :=
        List.mem_filter.mpr ⟨hremains, by simpa using hflush⟩
      rw [hleft] at hin
      exact List.not_mem_nil hin
    · obtain ⟨i, packet, written, hpacket, hwritten, hinjected⟩ := hput
      exact .inr ⟨i, packet, written, hpacket, hwritten, hinjected hsound⟩
  · exact (hsettled i packet written hpacket hwritten).mono fun entry hentry =>
      ((hmem entry).mp hentry).1

/-- A thread passes the check if nothing but flushes has no place, no place is looked at for two
entries, and no packet is refused. -/
theorem writeThread_isSome {order : Sorting rewriteCallLess} {thread : Nat}
    (hsized : ∀ packet ∈ packets, packet.WellSized env)
    (haccepts : ∀ packet ∈ packets, ∀ queue', queue'.Sublist (threadQueue order queue thread) →
      (writePacket env sorting queue' packet).isSome)
    (hnodup : queue.Nodup)
    (hsingle : ∀ packet ∈ packets, ∀ place, ∀ entry ∈ queue, ∀ entry' ∈ queue,
      packet.Finds env place entry → packet.Finds env place entry' → entry = entry')
    (hplaced : ∀ entry ∈ queue, entry.source.thread.toNat = thread →
      isFlushMarkingsSource env entry.source = true ∨
        ∃ packet ∈ packets, ∃ place markings, Has env packet.body place markings ∧
          packet.Finds env place entry) :
    (writeThread env sorting order queue (packets, thread)).isSome := by
  have hmem : ∀ entry ∈ threadQueue order queue thread,
      entry ∈ queue ∧ entry.source.thread.toNat = thread := by
    intro entry hentry
    rw [threadQueue, order.mem_sort, List.mem_filter, decide_eq_true_eq] at hentry
    exact hentry
  have hthread : (threadQueue order queue thread).Nodup :=
    (order.perm _).nodup_iff.mpr (hnodup.filter _)
  -- a packet is never refused with what its predecessors have left
  have hreplay : (replayThread env sorting (threadQueue order queue thread) packets).isSome :=
    serve_isSome haccepts fun packet hpacket _ _ _ hround =>
      (writePacket_round (hsized packet hpacket) hround).2.covers.sublist
  obtain ⟨⟨left, writtens⟩, hreplay⟩ := Option.isSome_iff_exists.mp hreplay
  have hleft : discardIgnoredFlushRewrites env left = [] := by
    rw [List.eq_nil_iff_forall_not_mem]
    intro entry hentry
    obtain ⟨hremains, hflush⟩ := List.mem_filter.mp hentry
    have hsub := (replayThread_spec hsized hreplay).2.1.sublist
    obtain ⟨hin, hnumber⟩ := hmem entry (hsub.subset hremains)
    rcases hplaced entry hin hnumber with hyes | ⟨packet, hpacket, place, markings, hhas, hfinds⟩
    · rw [hyes] at hflush
      cases hflush
    -- an entry that has a place is taken there, or there is another one for the place
    · have hclears := serve_clears
        (fun packet entry => Has env packet.body place markings ∧ packet.Finds env place entry)
        (fun packet hpacket _ _ _ hnodup hround => by
          have hround := (writePacket_round (hsized packet hpacket) hround).2
          refine ⟨hround.covers.sublist, fun entry hentry ⟨hhas, hfinds⟩ => ?_⟩
          obtain ⟨entry', hentry', hne, hfinds'⟩ :=
            hround.clears hnodup place markings hhas entry hentry hfinds
          exact ⟨entry', hentry', hne, hhas, hfinds'⟩) hthread hreplay
      obtain ⟨entry', hentry', hne, -, hfinds'⟩ :=
        hclears.2 packet hpacket entry hremains ⟨hhas, hfinds⟩
      exact hne (hsingle packet hpacket place entry' (hmem entry' hentry').1 entry hin hfinds'
        hfinds)
  rw [writeThread, hreplay, Option.bind_some]
  show (if discardIgnoredFlushRewrites env left = [] then some writtens else none).isSome = true
  rw [if_pos hleft]
  rfl

/-- A list of partial results, place by place. -/
theorem mapM_spec {A B : Type} {f : A → Option B} {l : List A} {l' : List B}
    (hmap : l.mapM f = some l') :
    l'.length = l.length ∧
      ∀ (i : Nat) (a : A), l[i]? = some a → ∃ b, l'[i]? = some b ∧ f a = some b := by
  induction l generalizing l' with
  | nil =>
      cases hmap
      exact ⟨rfl, fun i a ha => by cases ha⟩
  | cons first l ih =>
      rw [List.mapM_cons] at hmap
      obtain ⟨b, hb, hmap⟩ := Option.bind_eq_some_iff.mp hmap
      obtain ⟨rest, hrest, heq⟩ := Option.bind_eq_some_iff.mp hmap
      cases heq
      obtain ⟨hlength, hmade⟩ := ih hrest
      refine ⟨by rw [List.length_cons, List.length_cons, hlength], fun i a ha => ?_⟩
      cases i with
      | zero =>
          cases ha
          exact ⟨b, rfl, hb⟩
      | succ i => exact hmade i a ha

theorem mapM_isSome {A B : Type} {f : A → Option B} {l : List A}
    (hsome : ∀ a ∈ l, (f a).isSome) : (l.mapM f).isSome := by
  induction l with
  | nil => rfl
  | cons first l ih =>
      rw [List.forall_mem_cons] at hsome
      obtain ⟨b, hb⟩ := Option.isSome_iff_exists.mp hsome.1
      obtain ⟨rest, hrest⟩ := Option.isSome_iff_exists.mp (ih hsome.2)
      rw [List.mapM_cons, hb, hrest]
      rfl

end

/-! ### Both passes -/

section

variable {env : Environment} {sorting : Sorting Entry.Before} {order : Sorting rewriteCallLess}
variable {tracker : MemoryFlagTracker} {calls : List (MarkingMerge.Call tracker)}
variable {queue : List AddressRewrite} {threads : List (List Packet)}
variable {outputs : List (List Written)}

/-- What the first pass leaves in the queue. -/
theorem queue_merged (hpopulated : ∀ call ∈ calls, call.Populated)
    (hfew : total (calls.flatMap MarkingMerge.Call.handsOver) < 2 ^ 29)
    (hcalls : exec (MarkingMerge.step sorting) [] calls = some queue) :
    Merged (calls.flatMap MarkingMerge.Call.handsOver) queue := by
  obtain ⟨next, hnext, hmerged⟩ := exec_merged sorting merged_nil hpopulated
    (along_fits merged_nil hpopulated (by rw [List.nil_append]; omega))
  rw [hcalls] at hnext
  cases hnext
  exact hmerged

/-- The entries of the queue are sound, and have the union of what was handed over. -/
theorem entry_of_merged {parts : List Part} (hmerged : Merged parts queue)
    (hfew : total parts < 2 ^ 29) {entry : AddressRewrite} (hentry : entry ∈ queue) :
    Sound entry ∧ ∀ x, InEntry entry x ↔ InUnion parts entry.key x := by
  obtain ⟨l, hlist, hsorted, hmem⟩ := hmerged.markings entry hentry
  have hle : l.length ≤ (entriesUnder parts entry.key).length :=
    ((nodup_of_sorted hsorted).subperm fun x hx =>
      mem_entriesUnder.mpr ((hmem x).mp hx)).length_le
  have htotal : (entriesUnder parts entry.key).length ≤ total parts := length_entriesUnder
  exact ⟨⟨l, hlist, by omega⟩, fun x => (inEntry_iff hlist x).trans (hmem x)⟩

/-- **Discovered markings are injected.**  Whatever the first pass has discovered, in any order of
the threads: if the second pass does not give up, then the markings of every packet and object are
in the output at the place to which they belong, all of them and no others, except those of flushes,
and every other place has the markings that it had. -/
theorem discovered_markings_injected (hpopulated : ∀ call ∈ calls, call.Populated)
    (hfew : total (calls.flatMap MarkingMerge.Call.handsOver) < 2 ^ 29)
    (hcalls : exec (MarkingMerge.step sorting) [] calls = some queue)
    (hsized : ∀ packets ∈ threads, ∀ packet ∈ packets, packet.WellSized env)
    (hwrite : writeOutput env sorting order queue threads = some outputs) :
    (∀ k, Handed (calls.flatMap MarkingMerge.Call.handsOver) k →
      ∃ entry ∈ queue, entry.key = k ∧ (isFlushMarkingsSource env entry.source = true ∨
        ∃ packets writtens, threads[k.thread.toNat]? = some packets ∧
          outputs[k.thread.toNat]? = some writtens ∧
          At packets writtens fun packet written => ∃ place markings,
            packet.Finds env place entry ∧ Shows env packet.body written place markings ∧
              Holds markings (InUnion (calls.flatMap MarkingMerge.Call.handsOver) k))) ∧
    outputs.length = threads.length ∧
    ∀ (t : Nat) (packets : List Packet) (writtens : List Written), threads[t]? = some packets →
      outputs[t]? = some writtens → writtens.length = packets.length ∧
        ∀ (i : Nat) (packet : Packet) (written : Written), packets[i]? = some packet →
          writtens[i]? = some written → SameCommand packet.body written ∧
            ∀ place markings, Has env packet.body place markings →
              Shows env packet.body written place markings ∨
              ∃ entry ∈ queue, packet.Finds env place entry ∧
                ∃ markings', Shows env packet.body written place markings' ∧
                  Holds markings' (InUnion (calls.flatMap MarkingMerge.Call.handsOver)
                    entry.key) := by
  have hmerged := queue_merged hpopulated hfew hcalls
  generalize calls.flatMap MarkingMerge.Call.handsOver = parts at hfew hmerged ⊢
  unfold writeOutput at hwrite
  split_ifs at hwrite with hthreads
  obtain ⟨hlength, houtput⟩ := mapM_spec hwrite
  have hthread : ∀ (t : Nat) (packets : List Packet), threads[t]? = some packets →
      ∃ writtens, outputs[t]? = some writtens ∧
        writeThread env sorting order queue (packets, t) = some writtens := fun t packets hpackets =>
    houtput t (packets, t) (getElem?_zipIdx_of_eq_some hpackets)
  have hthreadSized : ∀ (t : Nat) (packets : List Packet), threads[t]? = some packets →
      ∀ packet ∈ packets, packet.WellSized env := fun t packets hpackets =>
    hsized packets (List.mem_of_getElem? hpackets)
  refine ⟨fun k hk => ?_, by rw [hlength, List.length_zipIdx], ?_⟩
  -- every key that was handed over has its entry, with the union of its parts
  · obtain ⟨entry, hentry, rfl⟩ := (hmerged.keys k).mpr hk
    refine ⟨entry, hentry, rfl, ?_⟩
    obtain ⟨hsound, hunion⟩ := entry_of_merged hmerged hfew hentry
    have hlt : entry.source.thread.toNat < threads.length := hthreads entry hentry
    have hpackets : threads[entry.source.thread.toNat]? =
        some threads[entry.source.thread.toNat] := List.getElem?_eq_getElem hlt
    obtain ⟨writtens, hwrittens, hwritten⟩ := hthread _ _ hpackets
    obtain ⟨-, hinjected, -⟩ := writeThread_spec (hthreadSized _ _ hpackets) hwritten
    rcases hinjected entry hentry rfl hsound with hflush | hput
    · exact .inl hflush
    · obtain ⟨i, packet, written, hpacket, hwritten, place, markings, hfinds, hshows, hholds⟩ := hput
      exact .inr ⟨_, writtens, hpackets, hwrittens, i, packet, written, hpacket, hwritten, place,
        markings, hfinds, hshows, hholds.congr hunion⟩
  · intro t packets writtens hpackets hwrittens
    obtain ⟨writtens', hwrittens', hwritten⟩ := hthread t packets hpackets
    rw [hwrittens] at hwrittens'
    cases hwrittens'
    obtain ⟨hsame, -, hsettled⟩ := writeThread_spec (hthreadSized t packets hpackets) hwritten
    refine ⟨hsame, fun i packet written hpacket hwritten => ?_⟩
    -- and every place of every packet is accounted for
    obtain ⟨hcommand, hplaces⟩ := hsettled i packet written hpacket hwritten
    refine ⟨hcommand, fun place markings hhas => ?_⟩
    rcases hplaces place markings hhas with hkept | ⟨entry, hentry, hfinds, hput⟩
    · exact .inl hkept
    · obtain ⟨hsound, hunion⟩ := entry_of_merged hmerged hfew hentry
      obtain ⟨markings', hshows, hholds⟩ := hput hsound
      exact .inr ⟨entry, hentry, hfinds, markings', hshows, hholds.congr hunion⟩

end

/-- The markings of a structure in a chain. -/
def ChainStructure.markings : ChainStructure → Option MarkedOffsetsARM
  | .markedOffsets markings => some markings
  | .other _ _ => none

/-- The first markings of a chain, and a chain without markings. -/
def simpleChains : ChainTools where
  findExtension := List.findSome? ChainStructure.markings
  purgeExtensionParent := List.filter fun structure_ => structure_.markings.isNone
  find_nil := rfl
  find_front := fun _ _ => rfl

def someEnvironment : Environment where
  objectTypeBuffer := 9
  objectTypeImage := 10
  objectTypeTensor := 1000460000
  objectTypePipeline := 19
  deviceAddressMarking := 1
  functionName := fun callId => if callId = 7 then "vkFlushMappedMemoryRanges" else ""
  readers := markingReaders
  chains := simpleChains
  pipelineIndex := fun _ => 0xffffffff
  translate := fun _ _ _ => none

/-- Entries by their packets. -/
def packetSorting : Sorting rewriteCallLess :=
  (Sorting.byKey fun entry => entry.source.packet.toNat).weaken fun _ _ =>
    UInt32.lt_iff_toNat_lt.mp

/-- An update of a buffer, and a push of constants behind it. -/
def somePackets : List Packet :=
  [⟨⟨4, 0, 0, 8, 0xffff⟩, .update plainPacket⟩,
    ⟨⟨5, 0, 0, 2, 9⟩, .cmdPushConstants ⟨1, 32, 0, 8, [0, 0, 0, 0, 0, 0, 0, 0]⟩⟩]

theorem one_marking_fits : ([⟨0, 1, 0⟩] : List Entry).length < 2 ^ 32 := by decide

theorem three_markings_fit : ([⟨8, 1, 0⟩, ⟨0, 1, 0⟩, ⟨0, 1, 0⟩] : List Entry).length < 2 ^ 32 := by
  decide

/-- Markings of the update, of the push, and of a flush behind them. -/
def someCalls : List (MarkingMerge.Call fragmentTracker) :=
  [.rewrite ⟨5, 0, 0, 2, 9⟩ (.ofEntries [⟨0, 1, 0⟩] one_marking_fits) 0 nullValue nullValue,
    .rewrite ⟨4, 0, 0, 8, 0xffff⟩
      (.ofEntries [⟨8, 1, 0⟩, ⟨0, 1, 0⟩, ⟨0, 1, 0⟩] three_markings_fit) 9 3 nullValue,
    .rewrite ⟨6, 0, 0, 2, 7⟩ (.ofEntries [⟨0, 1, 0⟩] one_marking_fits) 9 3 nullValue]

theorem someCalls_populated : ∀ call ∈ someCalls, call.Populated := by
  simp [someCalls, MarkingMerge.Call.Populated, readEntries_ofEntries]

/-- The queue behind the first pass. -/
def someQueue : List AddressRewrite :=
  (exec (MarkingMerge.step entrySorting) [] someCalls).get (by decide)

theorem exec_someCalls :
    exec (MarkingMerge.step entrySorting) [] someCalls = some someQueue :=
  (Option.some_get _).symm

theorem somePackets_wellSized :
    ∀ packets ∈ [somePackets], ∀ packet ∈ packets, packet.WellSized someEnvironment := by
  intro packets hpackets packet hpacket frame hbody
  rw [List.mem_singleton.mp hpackets] at hpacket
  rcases List.mem_cons.mp hpacket with rfl | hpacket
  · cases hbody
    refine ⟨by decide, fun update hread => ?_⟩
    have hplain : readUpdatePacket someEnvironment.readers plainPacket =
        some ⟨0, 3, 18, 28, 26, .null⟩ := by decide
    rw [hplain] at hread
    cases hread
    intro _
    decide
  · rw [List.mem_singleton.mp hpacket] at hbody
    cases hbody

/-- The markings of the update are in the output, sorted and once each. -/
theorem discovered_markings_injected_update :
    ∃ outputs writtens, writeOutput someEnvironment entrySorting packetSorting someQueue
        [somePackets] = some outputs ∧ outputs[0]? = some writtens ∧
      At somePackets writtens fun packet written => ∃ place markings,
        Shows someEnvironment packet.body written place markings ∧
          Holds markings (InUnion (someCalls.flatMap MarkingMerge.Call.handsOver)
            (keyOf ⟨4, 0, 0, 8, 0xffff⟩ 9 3 nullValue)) := by
  have hsome : (writeOutput someEnvironment entrySorting packetSorting someQueue
      [somePackets]).isSome := by decide
  obtain ⟨outputs, hwrite⟩ := Option.isSome_iff_exists.mp hsome
  obtain ⟨hall, -⟩ := discovered_markings_injected someCalls_populated (by decide) exec_someCalls
    somePackets_wellSized hwrite
  obtain ⟨entry, hentry, hkey, hput⟩ := hall (keyOf ⟨4, 0, 0, 8, 0xffff⟩ 9 3 nullValue)
    ⟨_, List.mem_cons_of_mem _ List.mem_cons_self, rfl⟩
  have hcall : entry.source.callId = 0xffff := congrArg Key.callId hkey
  have hflush : isFlushMarkingsSource someEnvironment entry.source = false := by
    simp [isFlushMarkingsSource, hcall]
  rw [hflush] at hput
  obtain ⟨packets, writtens, hpackets, hwrittens, i, packet, written, hpacket, hwritten, place,
    markings, -, hshows, hholds⟩ := hput.resolve_left Bool.false_ne_true
  cases hpackets
  exact ⟨outputs, writtens, hwrite, hwrittens, i, packet, written, hpacket, hwritten, place,
    markings, hshows, hholds⟩

section

variable {env : Environment} {sorting : Sorting Entry.Before} {order : Sorting rewriteCallLess}
variable {tracker : MemoryFlagTracker} {calls : List (MarkingMerge.Call tracker)}
variable {queue : List AddressRewrite} {threads : List (List Packet)}

/-- Where something is shown, there is a place. -/
theorem Shows.has {body : Body} {written : Written} {place : Place}
    {markings : Option MarkedOffsetsARM} (hshows : Shows env body written place markings) :
    ∃ before, Has env body place before := by
  cases hshows with
  | update hread => exact ⟨_, .update hread⟩
  | cmdPushConstants call => exact ⟨_, .cmdPushConstants call⟩
  | injected call chain => exact ⟨_, .cmdPushConstants call⟩
  | cmdPushConstants2 khr info chain => exact ⟨_, .cmdPushConstants2 khr info⟩
  | stage hinfo hstage => exact ⟨_, .stage hinfo hstage⟩

/-- **When the tool finishes.**  If no packet is refused for itself, and no place is looked at for
two entries, then the second pass gives up exactly if markings have been discovered, other than
those of flushes, for which no packet has a place. -/
theorem writeOutput_isSome_iff (hpopulated : ∀ call ∈ calls, call.Populated)
    (hfew : total (calls.flatMap MarkingMerge.Call.handsOver) < 2 ^ 29)
    (hcalls : exec (MarkingMerge.step sorting) [] calls = some queue)
    (hsized : ∀ packets ∈ threads, ∀ packet ∈ packets, packet.WellSized env)
    (haccepts : ∀ (t : Nat) (packets : List Packet), threads[t]? = some packets →
      ∀ packet ∈ packets, ∀ queue', queue'.Sublist (threadQueue order queue t) →
        (writePacket env sorting queue' packet).isSome)
    (hsingle : ∀ packets ∈ threads, ∀ packet ∈ packets, ∀ place, ∀ entry ∈ queue,
      ∀ entry' ∈ queue, packet.Finds env place entry → packet.Finds env place entry' →
        entry = entry') :
    (writeOutput env sorting order queue threads).isSome ↔
      ∀ entry ∈ queue, ∃ packets, threads[entry.source.thread.toNat]? = some packets ∧
        (isFlushMarkingsSource env entry.source = true ∨
          ∃ packet ∈ packets, ∃ place markings, Has env packet.body place markings ∧
            packet.Finds env place entry) := by
  have hmerged := queue_merged hpopulated hfew hcalls
  constructor
  · intro hsome entry hentry
    obtain ⟨outputs, hwrite⟩ := Option.isSome_iff_exists.mp hsome
    unfold writeOutput at hwrite
    split_ifs at hwrite with hthreads
    -- the second pass refuses threads that the trace does not have
    obtain ⟨packets, hpackets⟩ : ∃ packets, threads[entry.source.thread.toNat]? = some packets :=
      ⟨_, List.getElem?_eq_getElem (hthreads entry hentry)⟩
    obtain ⟨writtens, -, hwritten⟩ := (mapM_spec hwrite).2 _ _ (getElem?_zipIdx_of_eq_some hpackets)
    obtain ⟨-, hinjected, -⟩ :=
      writeThread_spec (hsized _ (List.mem_of_getElem? hpackets)) hwritten
    refine ⟨_, hpackets, ?_⟩
    rcases hinjected entry hentry rfl (entry_of_merged hmerged hfew hentry).1 with hflush | hput
    · exact .inl hflush
    · obtain ⟨i, packet, written, hpacket, -, place, markings, hfinds, hshows, -⟩ := hput
      obtain ⟨before, hhas⟩ := hshows.has
      exact .inr ⟨packet, List.mem_of_getElem? hpacket, place, before, hhas, hfinds⟩
  · intro hplaced
    have hthreads : ∀ entry ∈ queue, entry.source.thread.toNat < threads.length := by
      intro entry hentry
      obtain ⟨packets, hpackets, -⟩ := hplaced entry hentry
      exact (List.getElem?_eq_some_iff.mp hpackets).1
    rw [writeOutput, if_pos hthreads]
    refine mapM_isSome fun ⟨packets, t⟩ hthread => ?_
    obtain ⟨i, hget⟩ := List.getElem?_of_mem hthread
    obtain ⟨hpackets, rfl⟩ := getElem?_zipIdx_eq_some hget
    have hin : packets ∈ threads := List.mem_of_getElem? hpackets
    refine writeThread_isSome (hsized packets hin) (haccepts _ packets hpackets)
      hmerged.nodup.of_map (hsingle packets hin) fun entry hentry hnumber => ?_
    obtain ⟨packets', hpackets', hrest⟩ := hplaced entry hentry
    rw [hnumber] at hpackets'
    rw [Option.some.inj (hpackets'.symm.trans hpackets)] at hrest
    exact hrest

end

/-- No source has two entries here. -/
theorem someQueue_single :
    ∀ packets ∈ [somePackets], ∀ packet ∈ packets, ∀ place, ∀ entry ∈ someQueue,
      ∀ entry' ∈ someQueue, packet.Finds someEnvironment place entry →
        packet.Finds someEnvironment place entry' → entry = entry' := by
  intro packets _ packet _ place entry hentry entry' hentry' hfinds hfinds'
  have hnumber : ∀ e, packet.Finds someEnvironment place e →
      e.source.packet = packet.current.packet := by
    intro e he
    have hsame : sameSource e.source packet.current = true := by
      cases he with
      | update _ _ hfound => exact (Bool.and_eq_true_iff.mp hfound).1
      | call hfound => exact (Bool.and_eq_true_iff.mp hfound).1
      | stage _ _ hfound => exact (Bool.and_eq_true_iff.mp hfound).1
    exact (of_decide_eq_true hsame).1
  have hnodup : (someQueue.map fun e => e.source.packet).Nodup := by decide
  exact List.inj_on_of_nodup_map hnodup hentry hentry'
    ((hnumber entry hfinds).trans (hnumber entry' hfinds').symm)

/-- Neither packet is refused, whatever of the queue is left. -/
theorem somePackets_accepts (t : Nat) (packets : List Packet)
    (hpackets : [somePackets][t]? = some packets) (packet : Packet) (hpacket : packet ∈ packets)
    (queue' : List AddressRewrite)
    (hsub : queue'.Sublist (threadQueue packetSorting someQueue t)) :
    (writePacket someEnvironment entrySorting queue' packet).isSome := by
  have hall : ∀ left ∈ (threadQueue packetSorting someQueue 0).sublists, ∀ packet ∈ somePackets,
      (writePacket someEnvironment entrySorting left packet).isSome := by decide
  obtain ⟨hlt, rfl⟩ := List.getElem?_eq_some_iff.mp hpackets
  obtain rfl : t = 0 := Nat.lt_one_iff.mp hlt
  exact hall queue' (List.mem_sublists.mpr hsub) packet hpacket

theorem writeOutput_isSome_iff_three :
    (writeOutput someEnvironment entrySorting packetSorting someQueue [somePackets]).isSome := by
  have hread : readUpdatePacket someEnvironment.readers plainPacket =
      some ⟨0, 3, 18, 28, 26, .null⟩ := by decide
  have hplaces : ∀ entry ∈ someQueue, entry.source.thread.toNat = 0 ∧
      (isFlushMarkingsSource someEnvironment entry.source = true ∨
        isOutputEntry someEnvironment ⟨4, 0, 0, 8, 0xffff⟩ .bufferUpdate2
          ⟨0, 3, 18, 28, 26, .null⟩ entry = true ∨
        isApiEntry ⟨5, 0, 0, 2, 9⟩ entry = true) := by decide
  refine (writeOutput_isSome_iff someCalls_populated (by decide) exec_someCalls
    somePackets_wellSized somePackets_accepts someQueue_single).mpr fun entry hentry => ?_
  obtain ⟨hthread, hflush | hupdate | hcall⟩ := hplaces entry hentry
  · exact ⟨somePackets, by rw [hthread]; rfl, .inl hflush⟩
  · exact ⟨somePackets, by rw [hthread]; rfl, .inr ⟨_, List.mem_cons_self, .update, _,
      .update hread, .update rfl hread hupdate⟩⟩
  · exact ⟨somePackets, by rw [hthread]; rfl, .inr ⟨_, List.mem_cons_of_mem _ List.mem_cons_self,
      .call, _, .cmdPushConstants _, .call hcall⟩⟩

end MarkingInjection
end Lavatube
