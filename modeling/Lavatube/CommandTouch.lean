import Lavatube.TouchedMap

/-!
# What recorded commands touch

While a command buffer is recorded, the generated functions note for every command which bytes of
which objects it reads; a submit updates these bytes if the host may have written them.  The ranges
come from one expression for each command.

* `Command.touches` — the ranges of a command.
* `Command.Names` — the bytes that a command names as source data.
* `Command.Valid`, `Command.Covered` — what valid usage promises, and what is asked beyond it.
* `touches_spec` — what a command touches has all that it names, and fits.
* `recording_touches_named` — the touched maps of all command buffers in a run.
-/

namespace Lavatube
namespace CommandTouch

open TouchedMap RangeTracking Transition

/-! ## Commands -/

/-- `VkIndexType`. -/
inductive IndexType where
  | uint8
  | uint16
  | uint32
deriving DecidableEq, Repr

/-- The multiplier of `touch_index_buffer`. -/
def IndexType.multiplier : IndexType → Nat
  | .uint16 => 2
  | .uint32 => 4
  | .uint8 => 1

/-- The bound index buffer of a command buffer. -/
structure IndexBuffer where
  bufferData : Nat
  offset : Nat
  indexType : IndexType
deriving DecidableEq, Repr

/-- The part of `trackedcmdbuffer_trace` that the recording uses. -/
structure CommandBuffer where
  touched : Touched := fun _ => none
  indexBuffer : Option IndexBuffer := none

/-- `VkBufferCopy`. -/
structure BufferCopy where
  srcOffset : Nat
  dstOffset : Nat
  size : Nat
deriving DecidableEq, Repr

/-- `VkBufferImageCopy`. -/
structure BufferImageCopy where
  bufferOffset : Nat
  bufferRowLength : Nat
  bufferImageHeight : Nat
  layerCount : Nat
  width : Nat
  height : Nat
  depth : Nat
deriving DecidableEq, Repr

/-- `VkBufferMemoryBarrier`. -/
structure BufferMemoryBarrier where
  buffer : Nat
  offset : Nat
  size : Nat
deriving DecidableEq, Repr

/-- The structures that indirect draws read. -/
inductive IndirectCommand where
  | drawIndirect
  | drawIndexedIndirect
  | drawMeshTasksIndirectEXT
deriving DecidableEq, Repr

/-- The `sizeof` of the structure. -/
def IndirectCommand.commandSize : IndirectCommand → Nat
  | .drawIndirect => 16
  | .drawIndexedIndirect => 20
  | .drawMeshTasksIndirectEXT => 12

/-- The indirect draws that read their number of commands from a buffer. -/
inductive IndirectCountCommand where
  | drawIndirectCount
  | drawIndirectCountAMD
  | drawIndexedIndirectCount
  | drawIndexedIndirectCountAMD
  | drawMeshTasksIndirectCountEXT
deriving DecidableEq, Repr

/-- The structure that the command reads. -/
def IndirectCountCommand.indirect : IndirectCountCommand → IndirectCommand
  | .drawIndirectCount | .drawIndirectCountAMD => .drawIndirect
  | .drawIndexedIndirectCount | .drawIndexedIndirectCountAMD => .drawIndexedIndirect
  | .drawMeshTasksIndirectCountEXT => .drawMeshTasksIndirectEXT

/-- The commands whose ranges are followed; objects are given by their handles. -/
inductive Command where
  | copyBuffer (srcBuffer dstBuffer : Nat) (regions : List BufferCopy)
  | copyBufferToImage (srcBuffer dstImage : Nat) (regions : List BufferImageCopy)
  | bindVertexBuffers (bindings : List (Option Nat × Nat))
  | bindIndexBuffer (buffer offset : Nat) (indexType : IndexType)
  | drawIndexed (indexCount firstIndex : Nat)
  | drawMultiIndexedEXT (indexInfo : List (Nat × Nat))
  | drawIndirect (command : IndirectCommand) (buffer offset drawCount stride : Nat)
  | drawIndirectCount (command : IndirectCountCommand)
      (buffer offset countBuffer countBufferOffset maxDrawCount stride : Nat)
  | dispatchIndirect (buffer offset : Nat)
  | pipelineBarrier (bufferMemoryBarriers : List BufferMemoryBarrier)
      (imageMemoryBarriers : List Nat)

/-- The block of texels of a format. -/
structure TexelBlock where
  width : Nat
  height : Nat
  size : Nat
deriving DecidableEq, Repr

/-- The objects of a device, and the formats of its images. -/
structure Device where
  objects : Nat → TrackedObject
  format : Nat → TexelBlock

/-! ## What is touched -/

section

variable (device : Device)

/-- `trackedcmdbuffer_trace::touch_index_buffer`, up to its call of `touch`; `none` is a failed
assertion. -/
def touchIndexBuffer (commandBuffer : CommandBuffer) (firstIndex indexCount : Nat) :
    Option Touch :=
  match commandBuffer.indexBuffer with
  | none => none
  | some indexBuffer =>
      let multiplier := indexBuffer.indexType.multiplier
      let offset := (indexBuffer.offset + firstIndex * multiplier) % 2 ^ 64
      let bufferSize := (device.objects indexBuffer.bufferData).size
      let size :=
        if indexCount = wholeSize then (bufferSize + 2 ^ 64 - offset) % 2 ^ 64
        else indexCount * multiplier % 2 ^ 64
      if (offset + size) % 2 ^ 64 ≤ bufferSize then some ⟨indexBuffer.bufferData, offset, size⟩
      else none

/-- The touches of `vkCmdDrawIndirect` and its relatives.  The product is one of 32 bits.  The
index buffer of an indexed draw is not touched: the generator looks for `Indexed` in the name of
the parameter, which is `buffer`, not in that of the command. -/
def drawIndirectTouches (command : IndirectCommand) (buffer offset drawCount stride : Nat) :
    List Touch :=
  if drawCount = 1 then [⟨buffer, offset, command.commandSize⟩]
  else if drawCount > 1 then [⟨buffer, offset, stride * drawCount % 2 ^ 32⟩]
  else []

/-- The touches of `vkCmdDrawIndirectCount` and its relatives, in the order of the parameters. -/
def drawIndirectCountTouches (command : IndirectCountCommand)
    (buffer offset countBuffer countBufferOffset maxDrawCount stride : Nat) : List Touch :=
  let commands :=
    if maxDrawCount > 0 then [⟨buffer, offset, stride * maxDrawCount % 2 ^ 32⟩] else []
  match command with
  | .drawIndirectCount => commands ++ [⟨countBuffer, countBufferOffset, 4⟩]
  -- named for its count buffer only
  | .drawIndirectCountAMD => [⟨countBuffer, countBufferOffset, 4⟩]
  | .drawIndexedIndirectCount | .drawMeshTasksIndirectCountEXT =>
      commands ++ if maxDrawCount > 0 then [⟨countBuffer, countBufferOffset, 4⟩] else []
  | .drawIndexedIndirectCountAMD => []

/-- The touches of `vkCmdPipelineBarrier`.  The image is that of the first barrier in every round
of the loop. -/
def pipelineBarrierTouches (bufferMemoryBarriers : List BufferMemoryBarrier)
    (imageMemoryBarriers : List Nat) : List Touch :=
  bufferMemoryBarriers.map (fun barrier => ⟨barrier.buffer, barrier.offset, barrier.size⟩) ++
    match imageMemoryBarriers with
    | [] => []
    | image :: _ => imageMemoryBarriers.map fun _ => ⟨image, 0, (device.objects image).size⟩

/-- The touches of a command; `none` is a failed assertion. -/
def Command.touches (commandBuffer : CommandBuffer) : Command → Option (List Touch)
  | .copyBuffer srcBuffer dstBuffer regions =>
      some (regions.map (fun region => ⟨srcBuffer, region.srcOffset, region.size⟩) ++
        regions.map fun region => ⟨dstBuffer, region.dstOffset, region.size⟩)
  | .copyBufferToImage srcBuffer dstImage regions =>
      some (regions.map fun region =>
        ⟨srcBuffer, region.bufferOffset, min (device.objects dstImage).size
          (((device.objects srcBuffer).size + 2 ^ 64 - region.bufferOffset) % 2 ^ 64)⟩)
  | .bindVertexBuffers bindings =>
      some (bindings.filterMap fun binding => binding.1.map fun buffer =>
        ⟨buffer, binding.2, ((device.objects buffer).size + 2 ^ 64 - binding.2) % 2 ^ 64⟩)
  | .bindIndexBuffer _ _ _ => some []
  | .drawIndexed indexCount firstIndex =>
      (touchIndexBuffer device commandBuffer firstIndex indexCount).map fun t => [t]
  | .drawMultiIndexedEXT indexInfo =>
      indexInfo.mapM fun info => touchIndexBuffer device commandBuffer info.1 info.2
  | .drawIndirect command buffer offset drawCount stride =>
      some (drawIndirectTouches command buffer offset drawCount stride)
  | .drawIndirectCount command buffer offset countBuffer countBufferOffset maxDrawCount stride =>
      some (drawIndirectCountTouches command buffer offset countBuffer countBufferOffset
        maxDrawCount stride)
  | .dispatchIndirect buffer offset => some [⟨buffer, offset, 12⟩]
  | .pipelineBarrier bufferMemoryBarriers imageMemoryBarriers =>
      some (pipelineBarrierTouches device bufferMemoryBarriers imageMemoryBarriers)

/-- The index buffer after a command. -/
def Command.indexBufferAfter (commandBuffer : CommandBuffer) : Command → Option IndexBuffer
  | .bindIndexBuffer buffer offset indexType => some ⟨buffer, offset, indexType⟩
  | _ => commandBuffer.indexBuffer

/-- A command is recorded. -/
def recordCommand (commandBuffer : CommandBuffer) (command : Command) : Option CommandBuffer :=
  match command.touches device commandBuffer with
  | none => none
  | some touches =>
      (touchAll device.objects commandBuffer.touched touches).map fun touched =>
        ⟨touched, command.indexBufferAfter commandBuffer⟩

/-! ## What is named -/

/-- The bytes of the buffer that a copy to an image reads: blocks of texels in rows, slices and
layers. -/
def BufferImageCopy.Footprint (region : BufferImageCopy) (block : TexelBlock) (x : Nat) : Prop :=
  let rowLength := if region.bufferRowLength = 0 then region.width else region.bufferRowLength
  let imageHeight :=
    if region.bufferImageHeight = 0 then region.height else region.bufferImageHeight
  let blocks := fun texels side => (texels + side - 1) / side
  ∃ slice row column k, slice < region.depth * region.layerCount ∧
    row < blocks region.height block.height ∧ column < blocks region.width block.width ∧
    k < block.size ∧
    x = region.bufferOffset +
      ((slice * blocks imageHeight block.height + row) * blocks rowLength block.width + column) *
        block.size + k

/-- The bytes of a number of indices. -/
def IndexBuffer.Names (indexBuffer : IndexBuffer) (firstIndex indexCount data x : Nat) : Prop :=
  data = indexBuffer.bufferData ∧
    indexBuffer.offset + firstIndex * indexBuffer.indexType.multiplier ≤ x ∧
    x < indexBuffer.offset + (firstIndex + indexCount) * indexBuffer.indexType.multiplier

/-- The bytes of the index buffer from its offset on: an indirect draw may read all of them. -/
def IndexBuffer.NamesRest (indexBuffer : IndexBuffer) (data x : Nat) : Prop :=
  data = indexBuffer.bufferData ∧ indexBuffer.offset ≤ x ∧ x < (device.objects data).size

/-- The bytes of a number of indirect commands. -/
def IndirectCommand.Names (command : IndirectCommand) (offset drawCount stride x : Nat) : Prop :=
  ∃ i < drawCount, offset + i * stride ≤ x ∧ x < offset + i * stride + command.commandSize

/-- What is left of the buffer for `VK_WHOLE_SIZE`. -/
def BufferMemoryBarrier.Names (barrier : BufferMemoryBarrier) (data x : Nat) : Prop :=
  data = barrier.buffer ∧ barrier.offset ≤ x ∧
    if barrier.size = wholeSize then x < (device.objects data).size
    else x < barrier.offset + barrier.size

/-- Byte `x` of an object is named by the command as source data. -/
def Command.Names (indexBuffer : Option IndexBuffer) (data x : Nat) : Command → Prop
  | .copyBuffer srcBuffer _ regions =>
      data = srcBuffer ∧ ∃ region ∈ regions, region.srcOffset ≤ x ∧
        x < region.srcOffset + region.size
  | .copyBufferToImage srcBuffer dstImage regions =>
      data = srcBuffer ∧ ∃ region ∈ regions, region.Footprint (device.format dstImage) x
  | .bindVertexBuffers bindings =>
      ∃ binding ∈ bindings, binding.1 = some data ∧ binding.2 ≤ x ∧ x < (device.objects data).size
  | .bindIndexBuffer _ _ _ => False
  | .drawIndexed indexCount firstIndex =>
      ∃ bound ∈ indexBuffer, bound.Names firstIndex indexCount data x
  | .drawMultiIndexedEXT indexInfo =>
      ∃ bound ∈ indexBuffer, ∃ info ∈ indexInfo, bound.Names info.1 info.2 data x
  | .drawIndirect command buffer offset drawCount stride =>
      (data = buffer ∧ command.Names offset drawCount stride x) ∨
        (command = .drawIndexedIndirect ∧ 0 < drawCount ∧
          ∃ bound ∈ indexBuffer, bound.NamesRest device data x)
  | .drawIndirectCount command buffer offset countBuffer countBufferOffset maxDrawCount stride =>
      (data = buffer ∧ command.indirect.Names offset maxDrawCount stride x) ∨
        (0 < maxDrawCount ∧ data = countBuffer ∧ countBufferOffset ≤ x ∧
          x < countBufferOffset + 4) ∨
        (command.indirect = .drawIndexedIndirect ∧ 0 < maxDrawCount ∧
          ∃ bound ∈ indexBuffer, bound.NamesRest device data x)
  | .dispatchIndirect buffer offset => data = buffer ∧ offset ≤ x ∧ x < offset + 12
  | .pipelineBarrier bufferMemoryBarriers imageMemoryBarriers =>
      (∃ barrier ∈ bufferMemoryBarriers, barrier.Names device data x) ∨
        (data ∈ imageMemoryBarriers ∧ x < (device.objects data).size)

/-! ## What is promised and what is asked -/

/-- The commands at `offset` fit into the buffer, with a stride that holds one. -/
def IndirectCommand.Fit (command : IndirectCommand) (buffer offset drawCount stride : Nat) : Prop :=
  (1 < drawCount → command.commandSize ≤ stride) ∧
    (0 < drawCount → offset + (drawCount - 1) * stride + command.commandSize ≤
      (device.objects buffer).size)

/-- The indices fit into the bound index buffer. -/
def IndicesFit (indexBuffer : Option IndexBuffer) (firstIndex indexCount : Nat) : Prop :=
  ∃ bound, indexBuffer = some bound ∧ firstIndex < 2 ^ 32 ∧ indexCount < 2 ^ 32 ∧
    bound.offset + (firstIndex + indexCount) * bound.indexType.multiplier ≤
      (device.objects bound.bufferData).size

/-- Valid usage of a command, with respect to the buffers that it names. -/
def Command.Valid (indexBuffer : Option IndexBuffer) : Command → Prop
  | .copyBuffer srcBuffer dstBuffer regions =>
      ∀ region ∈ regions, region.srcOffset + region.size ≤ (device.objects srcBuffer).size ∧
        region.dstOffset + region.size ≤ (device.objects dstBuffer).size
  | .copyBufferToImage srcBuffer dstImage regions =>
      ∀ region ∈ regions, region.bufferOffset ≤ (device.objects srcBuffer).size ∧
        ∀ x, region.Footprint (device.format dstImage) x → x < (device.objects srcBuffer).size
  | .bindVertexBuffers bindings =>
      ∀ binding ∈ bindings, ∀ buffer, binding.1 = some buffer →
        binding.2 < (device.objects buffer).size
  | .bindIndexBuffer buffer offset _ => offset < (device.objects buffer).size
  | .drawIndexed indexCount firstIndex => IndicesFit device indexBuffer firstIndex indexCount
  | .drawMultiIndexedEXT indexInfo =>
      ∀ info ∈ indexInfo, IndicesFit device indexBuffer info.1 info.2
  | .drawIndirect command buffer offset drawCount stride =>
      drawCount < 2 ^ 32 ∧ stride < 2 ^ 32 ∧ command.Fit device buffer offset drawCount stride
  | .drawIndirectCount command buffer offset countBuffer countBufferOffset maxDrawCount stride =>
      maxDrawCount < 2 ^ 32 ∧ stride < 2 ^ 32 ∧ command.indirect.commandSize ≤ stride ∧
        command.indirect.Fit device buffer offset maxDrawCount stride ∧
        countBufferOffset + 4 ≤ (device.objects countBuffer).size
  | .dispatchIndirect buffer offset => offset + 12 ≤ (device.objects buffer).size
  | .pipelineBarrier bufferMemoryBarriers _ =>
      ∀ barrier ∈ bufferMemoryBarriers, barrier.offset < (device.objects barrier.buffer).size ∧
        (barrier.size = wholeSize ∨
          barrier.offset + barrier.size ≤ (device.objects barrier.buffer).size)

/-- The product of the stride and the count has 32 bits, and the buffer goes on for a whole stride
behind the start of the last command. -/
def ProductFits (buffer offset drawCount stride : Nat) : Prop :=
  (device.objects buffer).accessible = true →
    stride * drawCount < 2 ^ 32 ∧ offset + stride * drawCount ≤ (device.objects buffer).size

/-- The host does not write the bound index buffer. -/
def IndicesApart (indexBuffer : Option IndexBuffer) : Prop :=
  ∀ bound ∈ indexBuffer, (device.objects bound.bufferData).accessible = false

/-- What is asked of a command beyond valid usage. -/
def Command.Covered (indexBuffer : Option IndexBuffer) : Command → Prop
  | .copyBufferToImage srcBuffer dstImage regions =>
      (device.objects srcBuffer).accessible = true → ∀ region ∈ regions,
        ∀ x, region.Footprint (device.format dstImage) x →
          x < region.bufferOffset + (device.objects dstImage).size
  | .drawIndirect command buffer offset drawCount stride =>
      (1 < drawCount → ProductFits device buffer offset drawCount stride) ∧
        (command = .drawIndexedIndirect → 0 < drawCount → IndicesApart device indexBuffer)
  | .drawIndirectCount command buffer offset countBuffer _ maxDrawCount stride =>
      0 < maxDrawCount →
        match command with
        | .drawIndirectCount | .drawMeshTasksIndirectCountEXT =>
            ProductFits device buffer offset maxDrawCount stride
        | .drawIndirectCountAMD => (device.objects buffer).accessible = false
        | .drawIndexedIndirectCount =>
            ProductFits device buffer offset maxDrawCount stride ∧ IndicesApart device indexBuffer
        | .drawIndexedIndirectCountAMD =>
            (device.objects buffer).accessible = false ∧
              (device.objects countBuffer).accessible = false ∧ IndicesApart device indexBuffer
  | .pipelineBarrier _ imageMemoryBarriers =>
      ∀ image ∈ imageMemoryBarriers, (device.objects image).accessible = true →
        imageMemoryBarriers.head? = some image
  | _ => True

end

/-! ## Every command touches what it names -/

/-- What is touched fits, and has all bytes of accessible objects that are named. -/
structure Touches (device : Device) (touches : List Touch) (Names : Nat → Nat → Prop) : Prop where
  fits : ∀ t ∈ touches, (device.objects t.data).accessible = true → t.Fits device.objects
  has : ∀ data x, (device.objects data).accessible = true → Names data x →
    ∃ t ∈ touches, t.Has device.objects data x

section

variable {device : Device} {commandBuffer : CommandBuffer} {indexBuffer : Option IndexBuffer}

theorem copyBuffer_touches {srcBuffer dstBuffer : Nat} {regions : List BufferCopy}
    (hvalid : (Command.copyBuffer srcBuffer dstBuffer regions).Valid device indexBuffer) :
    Touches device (regions.map (fun region => ⟨srcBuffer, region.srcOffset, region.size⟩) ++
        regions.map fun region => ⟨dstBuffer, region.dstOffset, region.size⟩)
      fun data x =>
        (Command.copyBuffer srcBuffer dstBuffer regions).Names device indexBuffer data x := by
  constructor
  · intro t ht _
    rcases List.mem_append.mp ht with ht | ht
    · obtain ⟨region, hregion, rfl⟩ := List.mem_map.mp ht
      exact Touch.fits_of_le (hvalid region hregion).1
    · obtain ⟨region, hregion, rfl⟩ := List.mem_map.mp ht
      exact Touch.fits_of_le (hvalid region hregion).2
  · rintro data x - ⟨rfl, region, hregion, hlow, hhigh⟩
    exact ⟨_, List.mem_append_left _ (List.mem_map_of_mem hregion),
      Touch.has_of_le (hvalid region hregion).1 rfl hlow hhigh⟩

/-- Every byte of a footprint is behind the start of the region. -/
theorem BufferImageCopy.Footprint.le {region : BufferImageCopy} {block : TexelBlock} {x : Nat}
    (h : region.Footprint block x) : region.bufferOffset ≤ x := by
  obtain ⟨slice, row, column, k, -, -, -, -, rfl⟩ := h
  omega

theorem copyBufferToImage_touches {srcBuffer dstImage : Nat} {regions : List BufferImageCopy}
    (hvalid : (Command.copyBufferToImage srcBuffer dstImage regions).Valid device indexBuffer)
    (hcovered : (Command.copyBufferToImage srcBuffer dstImage regions).Covered device
      indexBuffer) :
    Touches device (regions.map fun region => ⟨srcBuffer, region.bufferOffset,
        min (device.objects dstImage).size
          (((device.objects srcBuffer).size + 2 ^ 64 - region.bufferOffset) % 2 ^ 64)⟩)
      fun data x =>
        (Command.copyBufferToImage srcBuffer dstImage regions).Names device indexBuffer data x := by
  have hinside : ∀ region ∈ regions, region.bufferOffset + min (device.objects dstImage).size
      (((device.objects srcBuffer).size + 2 ^ 64 - region.bufferOffset) % 2 ^ 64) ≤
        (device.objects srcBuffer).size := by
    intro region hregion
    have hoffset := (hvalid region hregion).1
    rw [TrackedObject.rest_eq hoffset]
    omega
  constructor
  · intro t ht _
    obtain ⟨region, hregion, rfl⟩ := List.mem_map.mp ht
    exact Touch.fits_of_le (hinside region hregion)
  · rintro data x haccessible ⟨rfl, region, hregion, hfootprint⟩
    refine ⟨_, List.mem_map_of_mem hregion,
      Touch.has_of_le (hinside region hregion) rfl hfootprint.le ?_⟩
    obtain ⟨hoffset, hbuffer⟩ := hvalid region hregion
    have hbyte := hbuffer x hfootprint
    have himage := hcovered haccessible region hregion x hfootprint
    simp only [TrackedObject.rest_eq hoffset]
    omega

theorem bindVertexBuffers_touches {bindings : List (Option Nat × Nat)}
    (hvalid : (Command.bindVertexBuffers bindings).Valid device indexBuffer) :
    Touches device (bindings.filterMap fun binding => binding.1.map fun buffer =>
        ⟨buffer, binding.2, ((device.objects buffer).size + 2 ^ 64 - binding.2) % 2 ^ 64⟩)
      fun data x => (Command.bindVertexBuffers bindings).Names device indexBuffer data x := by
  have hinside : ∀ binding ∈ bindings, ∀ buffer, binding.1 = some buffer →
      binding.2 + ((device.objects buffer).size + 2 ^ 64 - binding.2) % 2 ^ 64 =
        (device.objects buffer).size := by
    intro binding hbinding buffer hbuffer
    have hoffset := hvalid binding hbinding buffer hbuffer
    rw [TrackedObject.rest_eq hoffset.le]
    omega
  constructor
  · intro t ht _
    obtain ⟨binding, hbinding, hsome⟩ := List.mem_filterMap.mp ht
    obtain ⟨buffer, hbuffer, rfl⟩ := Option.map_eq_some_iff.mp hsome
    exact Touch.fits_of_le (hinside binding hbinding buffer hbuffer).le
  · rintro data x - ⟨binding, hbinding, hbuffer, hlow, hhigh⟩
    have hrest := hinside binding hbinding data hbuffer
    refine ⟨_, List.mem_filterMap.mpr ⟨binding, hbinding, by rw [hbuffer]; rfl⟩,
      Touch.has_of_le hrest.le rfl hlow ?_⟩
    simp only [hrest]
    exact hhigh

/-- The touch of the indices of a draw. -/
theorem touchIndexBuffer_spec {firstIndex indexCount : Nat}
    (hfit : IndicesFit device commandBuffer.indexBuffer firstIndex indexCount) :
    ∃ t, touchIndexBuffer device commandBuffer firstIndex indexCount = some t ∧
      t.offset + t.size ≤ (device.objects t.data).size ∧
      ∀ bound ∈ commandBuffer.indexBuffer, ∀ data x,
        bound.Names firstIndex indexCount data x →
        t.data = data ∧ t.offset ≤ x ∧ x < t.offset + t.size := by
  obtain ⟨bound, hbound, hfirst, hcount, hinside⟩ := hfit
  have hlt := (device.objects bound.bufferData).size_lt
  have hmultiplier : 1 ≤ bound.indexType.multiplier ∧ bound.indexType.multiplier ≤ 4 := by
    cases bound.indexType <;> decide
  have hsplit : (firstIndex + indexCount) * bound.indexType.multiplier =
      firstIndex * bound.indexType.multiplier + indexCount * bound.indexType.multiplier :=
    Nat.add_mul ..
  unfold touchIndexBuffer
  simp only [hbound]
  rw [if_neg (show indexCount ≠ wholeSize by unfold wholeSize; omega)]
  rw [Nat.mod_eq_of_lt (show bound.offset + firstIndex * bound.indexType.multiplier < 2 ^ 64 by
    omega), Nat.mod_eq_of_lt (show indexCount * bound.indexType.multiplier < 2 ^ 64 by omega),
    Nat.mod_eq_of_lt (by omega), if_pos (by omega)]
  refine ⟨_, rfl, by simp only; omega, ?_⟩
  rintro other hother data x ⟨rfl, hlow, hhigh⟩
  cases hother
  exact ⟨rfl, hlow, by simp only; omega⟩

theorem drawIndexed_touches {indexCount firstIndex : Nat}
    (hvalid : (Command.drawIndexed indexCount firstIndex).Valid device
      commandBuffer.indexBuffer) :
    ∃ touches, (Command.drawIndexed indexCount firstIndex).touches device commandBuffer =
        some touches ∧
      Touches device touches fun data x =>
        (Command.drawIndexed indexCount firstIndex).Names device commandBuffer.indexBuffer
          data x := by
  obtain ⟨t, htouch, hfits, hnames⟩ := touchIndexBuffer_spec hvalid
  refine ⟨[t], by rw [Command.touches, htouch]; rfl, fun other hother _ => ?_, ?_⟩
  · rw [List.mem_singleton.mp hother]
    exact Touch.fits_of_le hfits
  · rintro data x - ⟨bound, hbound, hin⟩
    obtain ⟨hdata, hlow, hhigh⟩ := hnames bound hbound data x hin
    exact ⟨t, List.mem_singleton_self t, Touch.has_of_le hfits hdata hlow hhigh⟩

theorem drawMultiIndexedEXT_touches {indexInfo : List (Nat × Nat)}
    (hvalid : (Command.drawMultiIndexedEXT indexInfo).Valid device commandBuffer.indexBuffer) :
    ∃ touches, (Command.drawMultiIndexedEXT indexInfo).touches device commandBuffer =
        some touches ∧
      Touches device touches fun data x =>
        (Command.drawMultiIndexedEXT indexInfo).Names device commandBuffer.indexBuffer data x := by
  induction indexInfo with
  | nil =>
      refine ⟨[], rfl, nofun, ?_⟩
      rintro data x - ⟨bound, -, info, hinfo, -⟩
      exact absurd hinfo List.not_mem_nil
  | cons info indexInfo ih =>
      obtain ⟨t, htouch, hfits, hnames⟩ := touchIndexBuffer_spec (hvalid info List.mem_cons_self)
      obtain ⟨touches, hrest, hall⟩ :=
        ih fun other hother => hvalid other (List.mem_cons_of_mem _ hother)
      refine ⟨t :: touches, ?_, fun other hother haccessible => ?_, ?_⟩
      · rw [Command.touches] at hrest ⊢
        rw [List.mapM_cons, htouch, hrest]
        rfl
      · rcases List.mem_cons.mp hother with rfl | hother
        · exact Touch.fits_of_le hfits
        · exact hall.fits other hother haccessible
      · rintro data x haccessible ⟨bound, hbound, other, hother, hin⟩
        rcases List.mem_cons.mp hother with rfl | hother
        · obtain ⟨hdata, hlow, hhigh⟩ := hnames bound hbound data x hin
          exact ⟨t, List.mem_cons_self, Touch.has_of_le hfits hdata hlow hhigh⟩
        · obtain ⟨t', ht', hhas⟩ :=
            hall.has data x haccessible ⟨bound, hbound, other, hother, hin⟩
          exact ⟨t', List.mem_cons_of_mem _ ht', hhas⟩

/-- The commands are in front of the product of stride and count. -/
theorem IndirectCommand.Names.lt {command : IndirectCommand} {offset drawCount stride x : Nat}
    (h : command.Names offset drawCount stride x) (hstride : command.commandSize ≤ stride) :
    offset ≤ x ∧ x < offset + stride * drawCount := by
  obtain ⟨i, hi, hlow, hhigh⟩ := h
  have hlast : (i + 1) * stride ≤ stride * drawCount := by
    rw [Nat.mul_comm stride]
    exact Nat.mul_le_mul_right stride hi
  rw [Nat.succ_mul] at hlast
  omega

/-- A touch of as many strides as there are commands. -/
theorem product_touches {command : IndirectCommand} {buffer offset drawCount stride : Nat}
    (hstride : command.commandSize ≤ stride)
    (hproduct : ProductFits device buffer offset drawCount stride) :
    Touches device [⟨buffer, offset, stride * drawCount % 2 ^ 32⟩]
      fun data x => data = buffer ∧ command.Names offset drawCount stride x := by
  have hinside : (device.objects buffer).accessible = true →
      stride * drawCount % 2 ^ 32 = stride * drawCount ∧
        offset + stride * drawCount % 2 ^ 32 ≤ (device.objects buffer).size := by
    intro haccessible
    obtain ⟨hlt, hle⟩ := hproduct haccessible
    rw [Nat.mod_eq_of_lt hlt]
    exact ⟨rfl, hle⟩
  constructor
  · intro t ht haccessible
    rw [List.mem_singleton.mp ht] at haccessible ⊢
    exact Touch.fits_of_le (hinside haccessible).2
  · rintro data x haccessible ⟨rfl, hnames⟩
    obtain ⟨hmod, hfits⟩ := hinside haccessible
    obtain ⟨hlow, hhigh⟩ := hnames.lt hstride
    exact ⟨_, List.mem_singleton_self _, Touch.has_of_le hfits rfl hlow (by
      simp only [hmod]
      exact hhigh)⟩

/-- Indices that the host does not write need no touch. -/
theorem IndicesApart.not_names {bound : IndexBuffer} {data x : Nat}
    (h : IndicesApart device indexBuffer) (hbound : bound ∈ indexBuffer)
    (haccessible : (device.objects data).accessible = true) :
    ¬ bound.NamesRest device data x := by
  rintro ⟨rfl, -⟩
  rw [h bound hbound] at haccessible
  cases haccessible

theorem drawIndirect_touches {command : IndirectCommand} {buffer offset drawCount stride : Nat}
    (hvalid : (Command.drawIndirect command buffer offset drawCount stride).Valid device
      indexBuffer)
    (hcovered : (Command.drawIndirect command buffer offset drawCount stride).Covered device
      indexBuffer) :
    Touches device (drawIndirectTouches command buffer offset drawCount stride) fun data x =>
      (Command.drawIndirect command buffer offset drawCount stride).Names device indexBuffer
        data x := by
  obtain ⟨-, -, hstride, hfit⟩ := hvalid
  obtain ⟨hproduct, hindices⟩ := hcovered
  -- the indices are left out
  have hcommands : ∀ {data x}, (device.objects data).accessible = true →
      (Command.drawIndirect command buffer offset drawCount stride).Names device indexBuffer
        data x → data = buffer ∧ command.Names offset drawCount stride x := by
    rintro data x haccessible (hin | ⟨hindexed, hpos, bound, hbound, hin⟩)
    · exact hin
    · exact absurd hin ((hindices hindexed hpos).not_names hbound haccessible)
  unfold drawIndirectTouches
  split
  · case _ hone =>
      subst hone
      have hinside := hfit Nat.one_pos
      rw [Nat.sub_self, Nat.zero_mul, Nat.add_zero] at hinside
      constructor
      · intro t ht _
        rw [List.mem_singleton.mp ht]
        exact Touch.fits_of_le hinside
      · intro data x haccessible hnames
        obtain ⟨rfl, i, hi, hlow, hhigh⟩ := hcommands haccessible hnames
        obtain rfl : i = 0 := by omega
        rw [Nat.zero_mul, Nat.add_zero] at hlow hhigh
        exact ⟨_, List.mem_singleton_self _, Touch.has_of_le hinside rfl hlow hhigh⟩
  · split
    · case _ hmany =>
        have htouches := product_touches (hstride hmany) (hproduct hmany)
        exact ⟨htouches.fits, fun data x haccessible hnames =>
          htouches.has data x haccessible (hcommands haccessible hnames)⟩
    · refine ⟨nofun, fun data x haccessible hnames => ?_⟩
      obtain ⟨-, i, hi, -⟩ := hcommands haccessible hnames
      omega

/-- The touch of the count. -/
theorem count_touches {countBuffer countBufferOffset : Nat}
    (hcount : countBufferOffset + 4 ≤ (device.objects countBuffer).size) :
    Touches device [⟨countBuffer, countBufferOffset, 4⟩] fun data x =>
      data = countBuffer ∧ countBufferOffset ≤ x ∧ x < countBufferOffset + 4 := by
  constructor
  · intro t ht _
    rw [List.mem_singleton.mp ht]
    exact Touch.fits_of_le hcount
  · rintro data x - ⟨rfl, hlow, hhigh⟩
    exact ⟨_, List.mem_singleton_self _, Touch.has_of_le hcount rfl hlow hhigh⟩

/-- Touches of two kinds of bytes. -/
theorem Touches.append {left right : List Touch} {LeftNames RightNames : Nat → Nat → Prop}
    (hleft : Touches device left LeftNames) (hright : Touches device right RightNames) :
    Touches device (left ++ right) fun data x => LeftNames data x ∨ RightNames data x := by
  constructor
  · intro t ht haccessible
    rcases List.mem_append.mp ht with ht | ht
    · exact hleft.fits t ht haccessible
    · exact hright.fits t ht haccessible
  · rintro data x haccessible (hin | hin)
    · obtain ⟨t, ht, hhas⟩ := hleft.has data x haccessible hin
      exact ⟨t, List.mem_append_left _ ht, hhas⟩
    · obtain ⟨t, ht, hhas⟩ := hright.has data x haccessible hin
      exact ⟨t, List.mem_append_right _ ht, hhas⟩

/-- Fewer bytes may be named. -/
theorem Touches.mono {touches : List Touch} {Names Fewer : Nat → Nat → Prop}
    (h : Touches device touches Names)
    (hfewer : ∀ data x, (device.objects data).accessible = true → Fewer data x → Names data x) :
    Touches device touches Fewer :=
  ⟨h.fits, fun data x haccessible hin => h.has data x haccessible (hfewer data x haccessible hin)⟩

theorem touches_nil : Touches device [] fun _ _ => False :=
  ⟨nofun, nofun⟩

theorem drawIndirectCount_touches {command : IndirectCountCommand}
    {buffer offset countBuffer countBufferOffset maxDrawCount stride : Nat}
    (hvalid : (Command.drawIndirectCount command buffer offset countBuffer countBufferOffset
      maxDrawCount stride).Valid device indexBuffer)
    (hcovered : (Command.drawIndirectCount command buffer offset countBuffer countBufferOffset
      maxDrawCount stride).Covered device indexBuffer) :
    Touches device
      (drawIndirectCountTouches command buffer offset countBuffer countBufferOffset maxDrawCount
        stride)
      fun data x => (Command.drawIndirectCount command buffer offset countBuffer countBufferOffset
        maxDrawCount stride).Names device indexBuffer data x := by
  obtain ⟨-, -, hstride, -, hcount⟩ := hvalid
  have hcountTouches := count_touches hcount
  rcases Nat.eq_zero_or_pos maxDrawCount with rfl | hpos
  · -- nothing is named, and the count is touched at most
    have hnone : ∀ data x, (device.objects data).accessible = true →
        (Command.drawIndirectCount command buffer offset countBuffer countBufferOffset 0
          stride).Names device indexBuffer data x → False := by
      rintro data x - (⟨-, i, hi, -⟩ | ⟨hpos, -⟩ | ⟨-, hpos, -⟩) <;> omega
    cases command with
    | drawIndirectCount => exact hcountTouches.mono fun data x h hin => (hnone data x h hin).elim
    | drawIndirectCountAMD => exact hcountTouches.mono fun data x h hin => (hnone data x h hin).elim
    | drawIndexedIndirectCount => exact touches_nil.mono hnone
    | drawIndexedIndirectCountAMD => exact touches_nil.mono hnone
    | drawMeshTasksIndirectCountEXT => exact touches_nil.mono hnone
  · have hasked := hcovered hpos
    unfold drawIndirectCountTouches
    simp only [gt_iff_lt, hpos, if_true]
    cases command with
    | drawIndirectCount =>
        refine ((product_touches hstride hasked).append hcountTouches).mono ?_
        rintro data x - (hin | ⟨-, hin⟩ | ⟨hindexed, -⟩)
        · exact Or.inl hin
        · exact Or.inr hin
        · cases hindexed
    | drawIndirectCountAMD =>
        refine hcountTouches.mono ?_
        rintro data x haccessible (⟨rfl, -⟩ | ⟨-, hin⟩ | ⟨hindexed, -⟩)
        · rw [hasked] at haccessible
          cases haccessible
        · exact hin
        · cases hindexed
    | drawIndexedIndirectCount =>
        refine ((product_touches hstride hasked.1).append hcountTouches).mono ?_
        rintro data x haccessible (hin | ⟨-, hin⟩ | ⟨-, -, bound, hbound, hin⟩)
        · exact Or.inl hin
        · exact Or.inr hin
        · exact absurd hin (hasked.2.not_names hbound haccessible)
    | drawIndexedIndirectCountAMD =>
        refine touches_nil.mono ?_
        rintro data x haccessible (⟨rfl, -⟩ | ⟨-, rfl, -⟩ | ⟨-, -, bound, hbound, hin⟩)
        · rw [hasked.1] at haccessible
          cases haccessible
        · rw [hasked.2.1] at haccessible
          cases haccessible
        · exact hasked.2.2.not_names hbound haccessible hin
    | drawMeshTasksIndirectCountEXT =>
        refine ((product_touches hstride hasked).append hcountTouches).mono ?_
        rintro data x - (hin | ⟨-, hin⟩ | ⟨hindexed, -⟩)
        · exact Or.inl hin
        · exact Or.inr hin
        · cases hindexed

theorem dispatchIndirect_touches {buffer offset : Nat}
    (hvalid : (Command.dispatchIndirect buffer offset).Valid device indexBuffer) :
    Touches device [⟨buffer, offset, 12⟩] fun data x =>
      (Command.dispatchIndirect buffer offset).Names device indexBuffer data x := by
  constructor
  · intro t ht _
    rw [List.mem_singleton.mp ht]
    exact Touch.fits_of_le hvalid
  · rintro data x - ⟨rfl, hlow, hhigh⟩
    exact ⟨_, List.mem_singleton_self _, Touch.has_of_le hvalid rfl hlow hhigh⟩

variable (indexBuffer) in
/-- The buffers of a barrier. -/
theorem bufferMemoryBarriers_touches {bufferMemoryBarriers : List BufferMemoryBarrier}
    (hvalid : (Command.pipelineBarrier bufferMemoryBarriers []).Valid device indexBuffer) :
    Touches device
      (bufferMemoryBarriers.map fun barrier => ⟨barrier.buffer, barrier.offset, barrier.size⟩)
      fun data x => ∃ barrier ∈ bufferMemoryBarriers, barrier.Names device data x := by
  constructor
  · intro t ht _
    obtain ⟨barrier, hbarrier, rfl⟩ := List.mem_map.mp ht
    obtain ⟨hoffset, hsize⟩ := hvalid barrier hbarrier
    rcases hsize with hwhole | hsize
    · unfold Touch.Fits
      rw [Touch.length_of_whole hwhole hoffset.le]
      simp only
      omega
    · exact Touch.fits_of_le hsize
  · rintro data x - ⟨barrier, hbarrier, rfl, hlow, hhigh⟩
    obtain ⟨hoffset, hsize⟩ := hvalid barrier hbarrier
    refine ⟨_, List.mem_map_of_mem hbarrier, rfl, hlow, ?_⟩
    by_cases hwhole : barrier.size = wholeSize
    · rw [if_pos hwhole] at hhigh
      rw [Touch.length_of_whole hwhole hoffset.le]
      simp only
      omega
    · rw [if_neg hwhole] at hhigh
      rwa [Touch.length_of_fits (hsize.resolve_left hwhole)]

theorem pipelineBarrier_touches {bufferMemoryBarriers : List BufferMemoryBarrier}
    {imageMemoryBarriers : List Nat}
    (hvalid : (Command.pipelineBarrier bufferMemoryBarriers imageMemoryBarriers).Valid device
      indexBuffer)
    (hcovered : (Command.pipelineBarrier bufferMemoryBarriers imageMemoryBarriers).Covered device
      indexBuffer) :
    Touches device (pipelineBarrierTouches device bufferMemoryBarriers imageMemoryBarriers)
      fun data x => (Command.pipelineBarrier bufferMemoryBarriers imageMemoryBarriers).Names device
        indexBuffer data x := by
  have hbuffers := bufferMemoryBarriers_touches indexBuffer hvalid
  unfold pipelineBarrierTouches
  suffices himages : Touches device _ fun data x => data ∈ imageMemoryBarriers ∧
      x < (device.objects data).size from hbuffers.append himages
  cases imageMemoryBarriers with
  | nil => exact touches_nil.mono fun data x _ hin => absurd hin.1 List.not_mem_nil
  | cons image imageMemoryBarriers =>
      have hinside : 0 + (device.objects image).size ≤ (device.objects image).size := by omega
      constructor
      · intro t ht _
        obtain ⟨-, -, rfl⟩ := List.mem_map.mp ht
        exact Touch.fits_of_le hinside
      · rintro data x haccessible ⟨hdata, hx⟩
        -- every accessible image is the one of the first barrier
        obtain rfl : image = data := Option.some.inj (hcovered data hdata haccessible)
        exact ⟨_, List.mem_map_of_mem hdata,
          Touch.has_of_le hinside rfl (Nat.zero_le x) (by simp only; omega)⟩

/-- **One command.**  What it touches fits, and has all that it names. -/
theorem touches_spec {command : Command} (hvalid : command.Valid device commandBuffer.indexBuffer)
    (hcovered : command.Covered device commandBuffer.indexBuffer) :
    ∃ touches, command.touches device commandBuffer = some touches ∧
      Touches device touches fun data x =>
        command.Names device commandBuffer.indexBuffer data x := by
  cases command with
  | copyBuffer srcBuffer dstBuffer regions => exact ⟨_, rfl, copyBuffer_touches hvalid⟩
  | copyBufferToImage srcBuffer dstImage regions =>
      exact ⟨_, rfl, copyBufferToImage_touches hvalid hcovered⟩
  | bindVertexBuffers bindings => exact ⟨_, rfl, bindVertexBuffers_touches hvalid⟩
  | bindIndexBuffer buffer offset indexType => exact ⟨[], rfl, touches_nil⟩
  | drawIndexed indexCount firstIndex => exact drawIndexed_touches hvalid
  | drawMultiIndexedEXT indexInfo => exact drawMultiIndexedEXT_touches hvalid
  | drawIndirect command buffer offset drawCount stride =>
      exact ⟨_, rfl, drawIndirect_touches hvalid hcovered⟩
  | drawIndirectCount command buffer offset countBuffer countBufferOffset maxDrawCount stride =>
      exact ⟨_, rfl, drawIndirectCount_touches hvalid hcovered⟩
  | dispatchIndirect buffer offset => exact ⟨_, rfl, dispatchIndirect_touches hvalid⟩
  | pipelineBarrier bufferMemoryBarriers imageMemoryBarriers =>
      exact ⟨_, rfl, pipelineBarrier_touches hvalid hcovered⟩

end

/-! ## Recording -/

/-- The command buffers, and for each of them the bytes that its commands name: this is what the
touched maps are for, and not part of the program. -/
structure State where
  commandBuffers : Nat → CommandBuffer := fun _ => {}
  named : Nat → Nat → Nat → Prop := fun _ _ _ => False

/-- The calls that change command buffers.  A pool is reset with its command buffers. -/
inductive Label where
  | beginCommandBuffer (commandBuffer : Nat)
  | resetCommandBuffer (commandBuffer : Nat)
  | resetCommandPool (commandbuffers : List Nat) (releaseResources : Bool)
  | record (commandBuffer : Nat) (command : Command)
  | executeCommands (commandBuffer : Nat) (secondaries : List Nat)

/-- The touched maps of some command buffers are cleared. -/
def clearTouched (commandBuffers : Nat → CommandBuffer) (cleared : List Nat) :
    Nat → CommandBuffer := fun i =>
  if i ∈ cleared then { commandBuffers i with touched := fun _ => none } else commandBuffers i

/-- Nothing is recorded in some command buffers. -/
def clearNamed (named : Nat → Nat → Nat → Prop) (cleared : List Nat) : Nat → Nat → Nat → Prop :=
  fun i data x => i ∉ cleared ∧ named i data x

/-- One call; `none` is a failed assertion. -/
def step (device : Device) (s : State) : Label → Option State
  | .beginCommandBuffer commandBuffer | .resetCommandBuffer commandBuffer =>
      some ⟨clearTouched s.commandBuffers [commandBuffer], clearNamed s.named [commandBuffer]⟩
  | .resetCommandPool commandbuffers releaseResources =>
      -- the pool forgets its command buffers, and does not clear their maps
      if releaseResources then some { s with named := clearNamed s.named commandbuffers }
      else some ⟨clearTouched s.commandBuffers commandbuffers, clearNamed s.named commandbuffers⟩
  | .record commandBuffer command =>
      (recordCommand device (s.commandBuffers commandBuffer) command).map fun recorded =>
        ⟨Function.update s.commandBuffers commandBuffer recorded,
          fun i data x => s.named i data x ∨ (i = commandBuffer ∧
            command.Names device (s.commandBuffers commandBuffer).indexBuffer data x)⟩
  | .executeCommands commandBuffer secondaries =>
      let touched := secondaries.foldl
        (fun touched other => touchMerge touched (s.commandBuffers other).touched)
        (s.commandBuffers commandBuffer).touched
      some ⟨Function.update s.commandBuffers commandBuffer
          { s.commandBuffers commandBuffer with touched := touched },
        fun i data x => s.named i data x ∨
          (i = commandBuffer ∧ ∃ other ∈ secondaries, s.named other data x)⟩

/-- Valid usage of a call. -/
def Label.Valid (device : Device) (s : State) : Label → Prop
  | .record commandBuffer command =>
      command.Valid device (s.commandBuffers commandBuffer).indexBuffer
  | .executeCommands commandBuffer secondaries => commandBuffer ∉ secondaries
  | _ => True

/-- What is asked of a call beyond valid usage. -/
def Label.Covered (device : Device) (s : State) : Label → Prop
  | .record commandBuffer command =>
      command.Covered device (s.commandBuffers commandBuffer).indexBuffer
  | _ => True

/-- The touched maps have all that is named, and are sound. -/
structure Inv (device : Device) (s : State) : Prop where
  sound : ∀ i, Sound device.objects (s.commandBuffers i).touched
  covers : ∀ i data x, (device.objects data).accessible = true → s.named i data x →
    Mem (s.commandBuffers i).touched data x

section

variable {device : Device} {s : State}

theorem inv_init (device : Device) : Inv device {} :=
  ⟨fun _ => sound_empty, nofun⟩

/-- Clearing keeps the invariant. -/
theorem Inv.clear (hinv : Inv device s) (cleared : List Nat) :
    Inv device ⟨clearTouched s.commandBuffers cleared, clearNamed s.named cleared⟩ := by
  constructor
  · intro i
    simp only [clearTouched]
    split
    · exact sound_empty
    · exact hinv.sound i
  · rintro i data x haccessible ⟨hout, hnamed⟩
    simp only [clearTouched, if_neg hout]
    exact hinv.covers i data x haccessible hnamed

/-- Recording a command keeps the invariant. -/
theorem record_inv (hinv : Inv device s) {commandBuffer : Nat} {command : Command}
    (hvalid : command.Valid device (s.commandBuffers commandBuffer).indexBuffer)
    (hcovered : command.Covered device (s.commandBuffers commandBuffer).indexBuffer) :
    ∃ next, step device s (.record commandBuffer command) = some next ∧ Inv device next := by
  obtain ⟨touches, htouches, hspec⟩ := touches_spec hvalid hcovered
  obtain ⟨touched, hall, hsound, hmem⟩ := touchAll_spec (hinv.sound commandBuffer) hspec.fits
  have hrecord : recordCommand device (s.commandBuffers commandBuffer) command =
      some ⟨touched, command.indexBufferAfter (s.commandBuffers commandBuffer)⟩ := by
    unfold recordCommand
    rw [htouches]
    simp only [hall, Option.map_some]
  refine ⟨_, by rw [step, hrecord]; rfl, fun i => ?_, ?_⟩
  · by_cases hi : i = commandBuffer
    · subst hi
      simpa using hsound
    · simpa [hi] using hinv.sound i
  · rintro i data x haccessible (hnamed | ⟨rfl, hnamed⟩)
    · have hold := hinv.covers i data x haccessible hnamed
      by_cases hi : i = commandBuffer
      · subst hi
        simpa using (hmem data x).mpr (Or.inl hold)
      · simpa [hi] using hold
    · have hnew := hspec.has data x haccessible hnamed
      simpa using (hmem data x).mpr (Or.inr ⟨haccessible, hnew⟩)

/-- The maps of the secondary command buffers are merged one after the other. -/
theorem foldl_touchMerge_spec {touched : Touched} (hsound : Sound device.objects touched)
    (hothers : ∀ i, Sound device.objects (s.commandBuffers i).touched) (secondaries : List Nat) :
    Sound device.objects (secondaries.foldl
        (fun touched other => touchMerge touched (s.commandBuffers other).touched) touched) ∧
      ∀ data x, Mem (secondaries.foldl
          (fun touched other => touchMerge touched (s.commandBuffers other).touched) touched)
          data x ↔
        Mem touched data x ∨
          ∃ other ∈ secondaries, Mem (s.commandBuffers other).touched data x := by
  induction secondaries generalizing touched with
  | nil => exact ⟨hsound, by simp⟩
  | cons other secondaries ih =>
      obtain ⟨hmerged, hmem⟩ := touchMerge_spec hsound (hothers other)
      obtain ⟨hrest, hall⟩ := ih hmerged
      refine ⟨hrest, fun data x => ?_⟩
      rw [List.foldl_cons, hall, hmem, List.exists_mem_cons_iff, or_assoc]

/-- Executing secondary command buffers keeps the invariant. -/
theorem executeCommands_inv (hinv : Inv device s) (commandBuffer : Nat) (secondaries : List Nat) :
    ∃ next, step device s (.executeCommands commandBuffer secondaries) = some next ∧
      Inv device next := by
  obtain ⟨hsound, hmem⟩ :=
    foldl_touchMerge_spec (hinv.sound commandBuffer) hinv.sound secondaries
  refine ⟨_, rfl, fun i => ?_, ?_⟩
  · by_cases hi : i = commandBuffer
    · subst hi
      simpa using hsound
    · simpa [hi] using hinv.sound i
  · rintro i data x haccessible (hnamed | ⟨rfl, other, hother, hnamed⟩)
    · have hold := hinv.covers i data x haccessible hnamed
      by_cases hi : i = commandBuffer
      · subst hi
        simpa using (hmem data x).mpr (Or.inl hold)
      · simpa [hi] using hold
    · have hnew := hinv.covers other data x haccessible hnamed
      simpa using (hmem data x).mpr (Or.inr ⟨other, hother, hnew⟩)

/-- **One call.** -/
theorem step_inv {label : Label} (hinv : Inv device s) (hvalid : label.Valid device s)
    (hcovered : label.Covered device s) :
    ∃ next, step device s label = some next ∧ Inv device next := by
  cases label with
  | beginCommandBuffer commandBuffer => exact ⟨_, rfl, hinv.clear _⟩
  | resetCommandBuffer commandBuffer => exact ⟨_, rfl, hinv.clear _⟩
  | resetCommandPool commandbuffers releaseResources =>
      cases releaseResources with
      | true => exact ⟨_, rfl, hinv.sound, fun i data x haccessible hnamed =>
          hinv.covers i data x haccessible hnamed.2⟩
      | false => exact ⟨_, rfl, hinv.clear _⟩
  | record commandBuffer command => exact record_inv hinv hvalid hcovered
  | executeCommands commandBuffer secondaries => exact executeCommands_inv hinv _ _

/-- **Recording touches what is named.**  In a run of valid calls that meet what is asked beyond
that, no assertion fails, and the touched map of every command buffer has all bytes of accessible
objects that its commands name, and none behind an object's end. -/
theorem recording_touches_named (device : Device) (labels : List Label)
    (halong : Along (step device)
      (fun s label => label.Valid device s ∧ label.Covered device s) {} labels) :
    ∃ final, exec (step device) {} labels = some final ∧
      ∀ i data, (∀ x, (device.objects data).accessible = true → final.named i data x →
          Mem (final.commandBuffers i).touched data x) ∧
        ∀ x, Mem (final.commandBuffers i).touched data x → x < (device.objects data).size := by
  obtain ⟨final, hexec, hinv⟩ := exec_progress
    (fun s label hinv hcond => step_inv hinv hcond.1 hcond.2) (inv_init device) halong
  exact ⟨final, hexec, fun i data => ⟨hinv.covers i data, (hinv.sound i).inside data⟩⟩

end

/-- Objects of 64 bytes that the host writes. -/
def visible : Device where
  objects := fun _ => ⟨64, true, by decide⟩
  format := fun _ => ⟨1, 1, 4⟩

/-- A secondary command buffer that copies, and a primary one that executes it. -/
def secondaryRun : List Label :=
  [.beginCommandBuffer 1, .record 1 (.copyBuffer 0 2 [⟨8, 0, 16⟩]), .executeCommands 0 [1]]

theorem recording_touches_named_secondary :
    ∃ final, exec (step visible) {} secondaryRun = some final ∧
      Mem (final.commandBuffers 0).touched 0 23 := by
  have halong : Along (step visible)
      (fun s label => label.Valid visible s ∧ label.Covered visible s) {} secondaryRun := by
    refine ⟨⟨trivial, trivial⟩, fun _ _ => ⟨⟨?_, trivial⟩, fun _ _ =>
      ⟨⟨?_, trivial⟩, fun _ _ => ?_⟩⟩⟩
    · intro region hregion
      rw [List.mem_singleton.mp hregion]
      exact ⟨by decide, by decide⟩
    · show 0 ∉ [1]
      decide
    · trivial
  obtain ⟨final, hexec, hall⟩ := recording_touches_named visible secondaryRun halong
  refine ⟨final, hexec, (hall 0 0).1 23 rfl ?_⟩
  cases hexec
  exact Or.inr ⟨rfl, 1, List.mem_singleton_self 1,
    Or.inr ⟨rfl, rfl, _, List.mem_singleton_self _, by decide, by decide⟩⟩

/-- A draw that reads its indices indirectly. -/
def indexedIndirectRun : List Label :=
  [.beginCommandBuffer 0, .record 0 (.bindIndexBuffer 1 0 .uint16),
    .record 0 (.drawIndirect .drawIndexedIndirect 0 0 1 20)]

/-- The index buffer of an indexed indirect draw is not touched. -/
theorem indexed_indirect_draw_misses_indices :
    ¬ ∀ (device : Device) (labels : List Label),
      Along (step device) (fun s label => label.Valid device s) {} labels →
      ∃ final, exec (step device) {} labels = some final ∧
        ∀ i data, (∀ x, (device.objects data).accessible = true → final.named i data x →
            Mem (final.commandBuffers i).touched data x) ∧
          ∀ x, Mem (final.commandBuffers i).touched data x → x < (device.objects data).size := by
  intro hall
  have halong : Along (step visible) (fun s label => label.Valid visible s) {}
      indexedIndirectRun := by
    refine ⟨trivial, fun _ _ => ⟨?_, fun _ _ => ⟨?_, fun _ _ => trivial⟩⟩⟩
    · show 0 < 64
      decide
    · exact ⟨by decide, by decide, by decide, by decide⟩
  obtain ⟨final, hexec, hcovers⟩ := hall visible indexedIndirectRun halong
  cases hexec
  have hindices := (hcovers 0 1).1 0 rfl
    (Or.inr ⟨rfl, Or.inr ⟨rfl, by decide, ⟨1, 0, .uint16⟩, rfl, rfl, by decide, by decide⟩⟩)
  obtain ⟨exposure, hnone, -⟩ := hindices
  cases hnone

end CommandTouch
end Lavatube
