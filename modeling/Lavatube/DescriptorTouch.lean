import Lavatube.Lib.OrderedMap
import Lavatube.TouchedMap

/-!
# What descriptor sets touch

A descriptor set keeps the bytes of the objects that its descriptors name; a command buffer that
binds the set takes them over.  Updates come as writes, as copies between sets and through
templates.

* `handleWriteDescriptorSets`, `handleCopyDescriptorSets`, `handleDescriptorUpdateTemplate`,
  `postCmdBindDescriptorSets` — the updates and the binding of the tracer.
* `Descriptor.Names` — the bytes of a descriptor; `State.held` — the descriptors that Vulkan keeps.
* `Label.Valid`, `Label.Covered` — what valid usage promises, and what is asked beyond it.
* `descriptor_sets_cover` — the touched maps of all sets and command buffers in a run.
-/

namespace Lavatube
namespace DescriptorTouch

open TouchedMap RangeTracking Transition

/-! ## Descriptors -/

/-- `VkDescriptorBufferInfo`; a null buffer is `none`. -/
structure BufferInfo where
  buffer : Option Nat
  offset : Nat
  range : Nat
deriving DecidableEq, Repr

/-- The fields of `trackedbufferview` that are read. -/
structure BufferView where
  buffer : Nat
  offset : Nat
  range : Nat
deriving DecidableEq, Repr

/-- The descriptor types with a `VkDescriptorImageInfo`. -/
inductive ImageDescriptorType where
  | sampler
  | combinedImageSampler
  | sampledImage
  | storageImage
  | inputAttachment
deriving DecidableEq, Repr

/-- What a slot of a descriptor set holds; the last case stands for an empty slot and for
descriptors without objects that the maps follow. -/
inductive Descriptor where
  | image (imageView : Option Nat)
  | buffer (info : BufferInfo)
  | dynamicBuffer (info : BufferInfo)
  | texelBuffer (bufferView : Option Nat)
  | tensor (tensorView : Option Nat)
  | other
deriving DecidableEq, Repr

/-- A binding and an array element. -/
abbrev Slot := Nat × Nat

/-- The objects and views.  Buffers, images and tensors are given by their handles; a view that is
not there is `none`.  `place set binding element j` is where Vulkan puts the `j`-th descriptor of an
update that starts at an element of a binding: the elements of a full binding are followed by those
of the next one. -/
structure Device where
  objects : Nat → TrackedObject
  imageViews : Nat → Option Nat
  bufferViews : Nat → Option BufferView
  tensorViews : Nat → Option Nat
  place : Nat → Nat → Nat → Nat → Slot

/-- The descriptors of a write, one array for each type; an extension structure that is not in the
chain is `none`, else it is given with its own count.  The types that the tracer aborts at are one
case. -/
inductive WriteData where
  | image (type : ImageDescriptorType) (imageViews : Nat → Option Nat)
  | buffer (bufferInfo : Nat → BufferInfo)
  | dynamicBuffer (bufferInfo : Nat → BufferInfo)
  | texelBuffer (texelBufferView : Nat → Option Nat)
  | inlineUniformBlock (found : Bool)
  | accelerationStructure (accelerationStructureCount : Option Nat)
  | tensor (tensorViews : Option (Nat × (Nat → Option Nat)))
  | unsupported

/-- `VkWriteDescriptorSet`. -/
structure WriteDescriptorSet where
  dstSet : Nat
  dstBinding : Nat
  dstArrayElement : Nat
  descriptorCount : Nat
  data : WriteData

/-- `VkCopyDescriptorSet`. -/
structure CopyDescriptorSet where
  srcSet : Nat
  srcBinding : Nat
  srcArrayElement : Nat
  dstSet : Nat
  dstBinding : Nat
  dstArrayElement : Nat
  descriptorCount : Nat
deriving DecidableEq, Repr

/-- The descriptor types that templates are read for. -/
inductive TemplateType where
  | image (type : ImageDescriptorType)
  | buffer
  | dynamicBuffer
  | texelBuffer
  | inlineUniformBlock
  | accelerationStructure
  | tensor
  | unsupported
deriving DecidableEq, Repr

/-- `VkDescriptorUpdateTemplateEntry`. -/
structure TemplateEntry where
  dstBinding : Nat
  dstArrayElement : Nat
  descriptorCount : Nat
  descriptorType : TemplateType
  offset : Nat
  stride : Nat
deriving DecidableEq, Repr

/-- What `pData` holds at an offset, read as each of the structures. -/
structure TemplateData where
  imageView : Nat → Option Nat
  bufferInfo : Nat → BufferInfo
  texelBufferView : Nat → Option Nat
  tensorView : Nat → Option Nat

/-- `sizeof` of an element. -/
def TemplateType.elementSize : TemplateType → Nat
  | .image _ | .buffer | .dynamicBuffer => 24
  | .inlineUniformBlock => 1
  | _ => 8

/-! ## The tracer -/

/-- The fields of `trackeddescriptorset_trace` that updates change. -/
structure DescriptorSet where
  touched : Touched := fun _ => none
  dynamicBuffers : OrderedMap Nat BufferInfo := .empty

/-- `descriptor_dynamic_slot`; the element is a 32-bit sum. -/
def descriptorDynamicSlot (binding arrayIndex : Nat) : Nat :=
  binding * 2 ^ 32 + arrayIndex % 2 ^ 32

/-- What is left of a buffer for `VK_WHOLE_SIZE`. -/
def bufferRange (object : TrackedObject) (offset range : Nat) : Nat :=
  if range = wholeSize then (object.size + 2 ^ 64 - offset) % 2 ^ 64 else range

section

variable (device : Device)

/-- The touches of one element: none for a null handle, and a failure for a handle that is not in
the index. -/
def touchHandle {T : Type*} (index : Nat → Option T) (touchOf : T → Touch) :
    Option Nat → Option (List Touch)
  | none => some []
  | some handle => (index handle).map fun object => [touchOf object]

/-- The touches of the elements of an array. -/
def touchElements (count : Nat) (elementTouches : Nat → Option (List Touch)) :
    Option (List Touch) :=
  ((List.range count).mapM elementTouches).map List.flatten

/-- The whole of an image or a tensor. -/
def touchWhole (data : Nat) : Touch := ⟨data, 0, (device.objects data).size⟩

def touchBuffer (info : BufferInfo) : Option (List Touch) :=
  touchHandle some (fun buffer =>
    ⟨buffer, info.offset, bufferRange (device.objects buffer) info.offset info.range⟩) info.buffer

/-- The touches of one write, in the order of the code; `none` is a failed assertion, a handle that
is not there or an abort. -/
def WriteDescriptorSet.touches (write : WriteDescriptorSet) : Option (List Touch) :=
  match write.data with
  | .image _ imageViews =>
      touchElements write.descriptorCount fun j =>
        touchHandle device.imageViews (touchWhole device) (imageViews j)
  | .buffer bufferInfo =>
      touchElements write.descriptorCount fun j => touchBuffer device (bufferInfo j)
  | .dynamicBuffer _ => some []
  | .texelBuffer texelBufferView =>
      touchElements write.descriptorCount fun j =>
        touchHandle device.bufferViews (fun view => ⟨view.buffer, view.offset, view.range⟩)
          (texelBufferView j)
  | .inlineUniformBlock found => if found then some [] else none
  | .accelerationStructure count =>
      if count = some write.descriptorCount then some [] else none
  | .tensor tensorViews =>
      match tensorViews with
      | none => none
      | some (tensorViewCount, views) =>
          if tensorViewCount = write.descriptorCount then
            touchElements tensorViewCount fun j =>
              touchHandle device.tensorViews (touchWhole device) (views j)
          else none
  | .unsupported => none

/-- The dynamic buffers behind a write. -/
def WriteDescriptorSet.dynamicBuffers (write : WriteDescriptorSet)
    (dynamicBuffers : OrderedMap Nat BufferInfo) : OrderedMap Nat BufferInfo :=
  match write.data with
  | .dynamicBuffer bufferInfo =>
      (List.range write.descriptorCount).foldl (fun dynamicBuffers j =>
        dynamicBuffers.insert (descriptorDynamicSlot write.dstBinding (write.dstArrayElement + j))
          (bufferInfo j)) dynamicBuffers
  | _ => dynamicBuffers

/-- One round of the second loop of `handle_VkWriteDescriptorSets`. -/
def writeDescriptorSet (sets : Nat → DescriptorSet) (write : WriteDescriptorSet) :
    Option (Nat → DescriptorSet) :=
  (write.touches device).bind fun touches =>
    (touchAll device.objects (sets write.dstSet).touched touches).map fun touched =>
      Function.update sets write.dstSet
        ⟨touched, write.dynamicBuffers (sets write.dstSet).dynamicBuffers⟩

/-- The first loop of `handle_VkWriteDescriptorSets`: what the sets that are written have touched is
forgotten. -/
def clearWritten (sets : Nat → DescriptorSet) (writes : List WriteDescriptorSet) :
    Nat → DescriptorSet := fun set =>
  if set ∈ writes.map WriteDescriptorSet.dstSet then
    { sets set with touched := fun _ => none }
  else sets set

/-- `handle_VkWriteDescriptorSets` of descriptor sets. -/
def handleWriteDescriptorSets (clear : Bool) (sets : Nat → DescriptorSet)
    (writes : List WriteDescriptorSet) : Option (Nat → DescriptorSet) :=
  exec (writeDescriptorSet device) (if clear then clearWritten sets writes else sets) writes

/-- `handle_VkWriteDescriptorSets` of pushed descriptors, which go to the command buffer; dynamic
buffers cannot be pushed. -/
def pushDescriptorSets (touched : Touched) (writes : List WriteDescriptorSet) : Option Touched :=
  exec (fun touched (write : WriteDescriptorSet) =>
    (write.touches device).bind (touchAll device.objects touched)) touched writes

/-- One round of `handle_VkCopyDescriptorSets`. -/
def copyDescriptorSet (sets : Nat → DescriptorSet) (copy : CopyDescriptorSet) :
    Nat → DescriptorSet :=
  let touched := touchMerge (sets copy.dstSet).touched (sets copy.srcSet).touched
  let sets := Function.update sets copy.dstSet { sets copy.dstSet with touched := touched }
  (List.range copy.descriptorCount).foldl (fun sets j =>
    let srcSlot := descriptorDynamicSlot copy.srcBinding (copy.srcArrayElement + j)
    let dstSlot := descriptorDynamicSlot copy.dstBinding (copy.dstArrayElement + j)
    let dynamicBuffers :=
      match (sets copy.srcSet).dynamicBuffers.find? srcSlot with
      | some info => (sets copy.dstSet).dynamicBuffers.insert dstSlot info
      | none => (sets copy.dstSet).dynamicBuffers.erase dstSlot
    Function.update sets copy.dstSet { sets copy.dstSet with dynamicBuffers := dynamicBuffers })
    sets

/-- `handle_VkCopyDescriptorSets`. -/
def handleCopyDescriptorSets (sets : Nat → DescriptorSet) (copies : List CopyDescriptorSet) :
    Nat → DescriptorSet :=
  copies.foldl copyDescriptorSet sets

/-- The write that `handle_descriptor_update_template` makes of an entry, with the elements of
`template_entry_data` that many bytes apart. -/
def TemplateEntry.writeAt (entry : TemplateEntry) (stride : Nat) (pData : TemplateData)
    (descriptorSet : Nat) : WriteDescriptorSet where
  dstSet := descriptorSet
  dstBinding := entry.dstBinding
  dstArrayElement := entry.dstArrayElement
  descriptorCount := entry.descriptorCount
  data :=
    match entry.descriptorType with
    | .image type => .image type fun j => pData.imageView (entry.offset + j * stride)
    | .buffer => .buffer fun j => pData.bufferInfo (entry.offset + j * stride)
    | .dynamicBuffer => .dynamicBuffer fun j => pData.bufferInfo (entry.offset + j * stride)
    | .texelBuffer => .texelBuffer fun j => pData.texelBufferView (entry.offset + j * stride)
    | .inlineUniformBlock => .inlineUniformBlock true
    | .accelerationStructure => .accelerationStructure (some entry.descriptorCount)
    | .tensor =>
        .tensor (some (entry.descriptorCount,
          fun j => pData.tensorView (entry.offset + j * stride)))
    | .unsupported => .unsupported

/-- The write of the tracer: a stride of zero is the size of an element. -/
def TemplateEntry.write (entry : TemplateEntry) (pData : TemplateData) (descriptorSet : Nat) :
    WriteDescriptorSet :=
  entry.writeAt (if entry.stride = 0 then entry.descriptorType.elementSize else entry.stride) pData
    descriptorSet

/-- The loop of `handle_descriptor_update_template` over the entries. -/
def updateTemplateEntries (pData : TemplateData) (descriptorSet : Nat) :
    Bool → (Nat → DescriptorSet) → List TemplateEntry → Option (Nat → DescriptorSet)
  | _, sets, [] => some sets
  | clearNext, sets, entry :: entries =>
      (handleWriteDescriptorSets device clearNext sets [entry.write pData descriptorSet]).bind
        fun sets => updateTemplateEntries pData descriptorSet false sets entries

/-- `handle_descriptor_update_template` of a descriptor set. -/
def handleDescriptorUpdateTemplate (sets : Nat → DescriptorSet) (descriptorSet : Nat)
    (entries : List TemplateEntry) : Option TemplateData → Option (Nat → DescriptorSet)
  | none => some sets
  | some pData => updateTemplateEntries device pData descriptorSet true sets entries

/-- The touches of the dynamic buffers of one set in `trace_post_vkCmdBindDescriptorSets`, with the
index of the next dynamic offset. -/
def bindDynamicBuffers (pDynamicOffsets : List Nat) :
    Touched × Nat → List (Nat × BufferInfo) → Option (Touched × Nat)
  | (touched, dynamicIndex), [] => some (touched, dynamicIndex)
  | (touched, dynamicIndex), (_, info) :: entries =>
      match info.buffer with
      | none => bindDynamicBuffers pDynamicOffsets (touched, dynamicIndex + 1) entries
      | some buffer =>
          (pDynamicOffsets[dynamicIndex]?).bind fun dynamicOffset =>
            let offset := (info.offset + dynamicOffset) % 2 ^ 64
            let size := bufferRange (device.objects buffer) offset info.range
            (touch device.objects touched ⟨buffer, offset, size⟩).bind fun touched =>
              bindDynamicBuffers pDynamicOffsets (touched, dynamicIndex + 1) entries

/-- One round of `trace_post_vkCmdBindDescriptorSets`; a null set is dereferenced. -/
def bindDescriptorSet (sets : Nat → DescriptorSet) (pDynamicOffsets : List Nat) :
    Touched × Nat → Option Nat → Option (Touched × Nat)
  | _, none => none
  | (touched, dynamicIndex), some set =>
      (bindDynamicBuffers device pDynamicOffsets
        (touchMerge touched (sets set).touched, dynamicIndex)
        (sets set).dynamicBuffers.entries).bind fun (touched, dynamicIndex) =>
          if dynamicIndex ≤ pDynamicOffsets.length then some (touched, dynamicIndex) else none

/-- `trace_post_vkCmdBindDescriptorSets`. -/
def postCmdBindDescriptorSets (sets : Nat → DescriptorSet) (touched : Touched)
    (pDescriptorSets : List (Option Nat)) (pDynamicOffsets : List Nat) : Option Touched :=
  (exec (bindDescriptorSet device sets pDynamicOffsets) (touched, 0) pDescriptorSets).map Prod.fst

/-- `VkShaderStageFlags` of `VkBindDescriptorSetsInfo` that the code asks for; any further bits are
not read. -/
structure ShaderStages where
  vertex : Bool
  fragment : Bool
  compute : Bool
deriving DecidableEq, Repr

/-- `trace_post_vkCmdBindDescriptorSets2` and the one of the extension. -/
def postCmdBindDescriptorSets2 (sets : Nat → DescriptorSet) (touched : Touched)
    (stageFlags : ShaderStages) (pDescriptorSets : List (Option Nat))
    (pDynamicOffsets : List Nat) : Option Touched :=
  (if stageFlags.vertex || stageFlags.fragment then
    postCmdBindDescriptorSets device sets touched pDescriptorSets pDynamicOffsets
  else some touched).bind fun touched =>
    if stageFlags.compute then
      postCmdBindDescriptorSets device sets touched pDescriptorSets pDynamicOffsets
    else some touched

end

/-! ## What Vulkan keeps -/

/-- The end of a range. -/
def rangeEnd (object : TrackedObject) (offset range : Nat) : Nat :=
  if range = wholeSize then object.size else offset + range

/-- The range lies inside of the object. -/
def RangeFits (object : TrackedObject) (offset range : Nat) : Prop :=
  offset ≤ object.size ∧ rangeEnd object offset range ≤ object.size

section

variable (device : Device)

/-- Byte `x` of the object is one that the descriptor names; dynamic buffers are resolved when a set
is bound. -/
def Descriptor.Names (data x : Nat) : Descriptor → Prop
  | .image (some view) => device.imageViews view = some data ∧ x < (device.objects data).size
  | .buffer info =>
      info.buffer = some data ∧ info.offset ≤ x ∧
        x < rangeEnd (device.objects data) info.offset info.range
  | .texelBuffer (some view) =>
      ∃ v, device.bufferViews view = some v ∧ v.buffer = data ∧ v.offset ≤ x ∧
        x < rangeEnd (device.objects data) v.offset v.range
  | .tensor (some view) => device.tensorViews view = some data ∧ x < (device.objects data).size
  | _ => False

/-- The handle of the descriptor is null or there, and its range is inside of its buffer. -/
def Descriptor.Valid : Descriptor → Prop
  | .image (some view) => (device.imageViews view).isSome
  | .buffer info =>
      ∀ buffer ∈ info.buffer, RangeFits (device.objects buffer) info.offset info.range
  | .texelBuffer (some view) =>
      ∃ v, device.bufferViews view = some v ∧ RangeFits (device.objects v.buffer) v.offset v.range
  | .tensor (some view) => (device.tensorViews view).isSome
  | _ => True

/-- The `j`-th descriptor of a write; a sampler has no view. -/
def WriteDescriptorSet.descriptor (write : WriteDescriptorSet) (j : Nat) : Descriptor :=
  match write.data with
  | .image .sampler _ => .other
  | .image _ imageViews => .image (imageViews j)
  | .buffer bufferInfo => .buffer (bufferInfo j)
  | .dynamicBuffer bufferInfo => .dynamicBuffer (bufferInfo j)
  | .texelBuffer texelBufferView => .texelBuffer (texelBufferView j)
  | .tensor (some (_, tensorViews)) => .tensor (tensorViews j)
  | _ => .other

/-- The slot of the `j`-th descriptor of a write. -/
def WriteDescriptorSet.slot (write : WriteDescriptorSet) (j : Nat) : Slot :=
  device.place write.dstSet write.dstBinding write.dstArrayElement j

/-- A slot of a set holds another descriptor. -/
def assign (held : Nat → Slot → Descriptor) (set : Nat) (slot : Slot) (descriptor : Descriptor) :
    Nat → Slot → Descriptor :=
  Function.update held set (Function.update (held set) slot descriptor)

/-- What the slots hold behind a write. -/
def writeHeld (held : Nat → Slot → Descriptor) (write : WriteDescriptorSet) :
    Nat → Slot → Descriptor :=
  (List.range write.descriptorCount).foldl (fun held j =>
    assign held write.dstSet (write.slot device j) (write.descriptor j)) held

/-- What the slots hold behind a copy. -/
def copyHeld (held : Nat → Slot → Descriptor) (copy : CopyDescriptorSet) :
    Nat → Slot → Descriptor :=
  (List.range copy.descriptorCount).foldl (fun held j =>
    assign held copy.dstSet (device.place copy.dstSet copy.dstBinding copy.dstArrayElement j)
      (held copy.srcSet (device.place copy.srcSet copy.srcBinding copy.srcArrayElement j))) held

/-! ## Runs -/

/-- The tracer, the descriptors that the sets hold, and the bytes that are named by the descriptors
of a command buffer. -/
structure State where
  sets : Nat → DescriptorSet := fun _ => {}
  held : Nat → Slot → Descriptor := fun _ _ => .other
  commandBuffers : Nat → Touched := fun _ _ => none
  named : Nat → Nat → Nat → Prop := fun _ _ _ => False

/-- The calls of an application. -/
inductive Label where
  | updateDescriptorSets (writes : List WriteDescriptorSet) (copies : List CopyDescriptorSet)
  | updateDescriptorSetWithTemplate (descriptorSet : Nat) (entries : List TemplateEntry)
      (pData : Option TemplateData)
  | beginCommandBuffer (commandBuffer : Nat)
  | bindDescriptorSets (commandBuffer : Nat) (pDescriptorSets : List (Option Nat))
      (pDynamicOffsets : List Nat)
  | bindDescriptorSets2 (commandBuffer : Nat) (stageFlags : ShaderStages)
      (pDescriptorSets : List (Option Nat)) (pDynamicOffsets : List Nat)
  | pushDescriptorSet (commandBuffer : Nat) (writes : List WriteDescriptorSet)

/-- The writes that Vulkan makes of a template: the elements are a stride apart. -/
def templateWrites (entries : List TemplateEntry) (pData : TemplateData) (descriptorSet : Nat) :
    List WriteDescriptorSet :=
  entries.map fun entry => entry.writeAt entry.stride pData descriptorSet

/-- A descriptor of the set names the byte. -/
def State.SetNames (s : State) (set data x : Nat) : Prop :=
  ∃ slot, (s.held set slot).Names device data x

/-- A command buffer behind a call that touched more of what the sets name. -/
def State.bind (s : State) (commandBuffer : Nat) (pDescriptorSets : List (Option Nat))
    (touched : Touched) : State :=
  { s with
    commandBuffers := Function.update s.commandBuffers commandBuffer touched
    named := fun i data x => s.named i data x ∨
      (i = commandBuffer ∧ ∃ set, some set ∈ pDescriptorSets ∧ s.SetNames device set data x) }

/-- One call. -/
def step (s : State) : Label → Option State
  | .updateDescriptorSets writes copies =>
      (handleWriteDescriptorSets device true s.sets writes).map fun sets =>
        { s with
          sets := handleCopyDescriptorSets sets copies
          held := copies.foldl (copyHeld device) (writes.foldl (writeHeld device) s.held) }
  | .updateDescriptorSetWithTemplate descriptorSet entries pData =>
      (handleDescriptorUpdateTemplate device s.sets descriptorSet entries pData).map fun sets =>
        { s with
          sets := sets
          held := (pData.map fun pData => templateWrites entries pData descriptorSet).getD []
            |>.foldl (writeHeld device) s.held }
  | .beginCommandBuffer commandBuffer =>
      some { s with
        commandBuffers := Function.update s.commandBuffers commandBuffer fun _ => none
        named := fun i data x => i ≠ commandBuffer ∧ s.named i data x }
  | .bindDescriptorSets commandBuffer pDescriptorSets pDynamicOffsets =>
      (postCmdBindDescriptorSets device s.sets (s.commandBuffers commandBuffer) pDescriptorSets
        pDynamicOffsets).map (s.bind device commandBuffer pDescriptorSets)
  | .bindDescriptorSets2 commandBuffer stageFlags pDescriptorSets pDynamicOffsets =>
      (postCmdBindDescriptorSets2 device s.sets (s.commandBuffers commandBuffer) stageFlags
        pDescriptorSets pDynamicOffsets).map (s.bind device commandBuffer pDescriptorSets)
  | .pushDescriptorSet commandBuffer writes =>
      (pushDescriptorSets device (s.commandBuffers commandBuffer) writes).map fun touched =>
        { s with
          commandBuffers := Function.update s.commandBuffers commandBuffer touched
          named := fun i data x => s.named i data x ∨ (i = commandBuffer ∧
            ∃ write ∈ writes, ∃ j < write.descriptorCount,
              (write.descriptor j).Names device data x) }

/-- The extension structure of the type is there, and the type is one that the tracer follows. -/
def WriteDescriptorSet.Formed (write : WriteDescriptorSet) : Prop :=
  match write.data with
  | .inlineUniformBlock found => found = true
  | .accelerationStructure count => count = some write.descriptorCount
  | .tensor tensorViews => ∃ views, tensorViews = some (write.descriptorCount, views)
  | .unsupported => False
  | _ => True

/-- Valid usage of a write. -/
structure WriteDescriptorSet.Valid (write : WriteDescriptorSet) : Prop where
  formed : write.Formed
  descriptors : ∀ j < write.descriptorCount, (write.descriptor j).Valid device

/-- Valid usage of a call. -/
def Label.Valid : Label → Prop
  | .updateDescriptorSets writes _ => ∀ write ∈ writes, write.Valid device
  | .updateDescriptorSetWithTemplate descriptorSet entries pData =>
      ∀ data ∈ pData, ∀ write ∈ templateWrites entries data descriptorSet, write.Valid device
  | .pushDescriptorSet _ writes => ∀ write ∈ writes, write.Valid device
  | _ => True

/-- The views next to samplers, which Vulkan does not look at, are null or there. -/
def WriteDescriptorSet.ViewsThere (write : WriteDescriptorSet) : Prop :=
  match write.data with
  | .image .sampler imageViews =>
      ∀ j < write.descriptorCount, ∀ view ∈ imageViews j, (device.imageViews view).isSome
  | _ => True

/-- No write of the list goes to the slot. -/
def Kept (writes : List WriteDescriptorSet) (set : Nat) (slot : Slot) : Prop :=
  ∀ write ∈ writes, write.dstSet = set → ∀ j < write.descriptorCount, write.slot device j ≠ slot

/-- Whatever descriptors that a written set keeps name is also named by one that is written. -/
def State.Renewed (s : State) (writes : List WriteDescriptorSet) : Prop :=
  ∀ write ∈ writes, ∀ slot, Kept device writes write.dstSet slot →
    ∀ data x, (device.objects data).accessible = true →
      (s.held write.dstSet slot).Names device data x →
        ∃ other ∈ writes, other.dstSet = write.dstSet ∧
          ∃ j < other.descriptorCount, (other.descriptor j).Names device data x

/-- The recorded dynamic buffers have dynamic offsets, from one of them on, and lie in their buffers
with these. -/
def DynamicFits (pDynamicOffsets : List Nat) (dynamicIndex : Nat)
    (entries : List (Nat × BufferInfo)) : Prop :=
  ∀ i entry, entries[i]? = some entry → ∃ dynamicOffset,
    pDynamicOffsets[dynamicIndex + i]? = some dynamicOffset ∧
      ∀ buffer ∈ entry.2.buffer, (device.objects buffer).accessible = true →
        RangeFits (device.objects buffer) (entry.2.offset + dynamicOffset) entry.2.range

/-- What is asked of a binding of sets. -/
def State.Bindable (s : State) (pDescriptorSets : List (Option Nat)) (pDynamicOffsets : List Nat) :
    Prop :=
  ∃ sets : List Nat, pDescriptorSets = sets.map some ∧
    DynamicFits device pDynamicOffsets 0
      (sets.flatMap fun set => (s.sets set).dynamicBuffers.entries)

/-- What is asked of a call beyond valid usage. -/
def Label.Covered (s : State) : Label → Prop
  | .updateDescriptorSets writes _ =>
      (∀ write ∈ writes, write.ViewsThere device) ∧ s.Renewed device writes
  | .updateDescriptorSetWithTemplate descriptorSet entries pData =>
      ∀ data ∈ pData,
        (∀ write ∈ templateWrites entries data descriptorSet, write.ViewsThere device) ∧
          (∀ entry ∈ entries, entry.stride ≠ 0 ∨ entry.descriptorCount ≤ 1) ∧
            s.Renewed device (templateWrites entries data descriptorSet)
  | .beginCommandBuffer _ => True
  | .bindDescriptorSets _ pDescriptorSets pDynamicOffsets =>
      s.Bindable device pDescriptorSets pDynamicOffsets
  | .bindDescriptorSets2 _ stageFlags pDescriptorSets pDynamicOffsets =>
      s.Bindable device pDescriptorSets pDynamicOffsets ∧
        (stageFlags.vertex = true ∨ stageFlags.fragment = true ∨ stageFlags.compute = true)
  | .pushDescriptorSet _ writes => ∀ write ∈ writes, write.ViewsThere device

end

/-! ## Every write touches what it names -/

section

variable {device : Device}

/-- The touches are made, fit, and have all bytes that are named. -/
def Reads (device : Device) (result : Option (List Touch)) (Names : Nat → Nat → Prop) : Prop :=
  ∃ touches, result = some touches ∧ (∀ t ∈ touches, t.Fits device.objects) ∧
    ∀ data x, Names data x → ∃ t ∈ touches, t.Has device.objects data x

theorem Reads.mono {result : Option (List Touch)} {Names Fewer : Nat → Nat → Prop}
    (h : Reads device result Names) (himp : ∀ data x, Fewer data x → Names data x) :
    Reads device result Fewer := by
  obtain ⟨touches, hresult, hfits, hhas⟩ := h
  exact ⟨touches, hresult, hfits, fun data x hfewer => hhas data x (himp data x hfewer)⟩

theorem reads_nil : Reads device (some []) fun _ _ => False :=
  ⟨[], rfl, fun _ h => absurd h List.not_mem_nil, fun _ _ h => h.elim⟩

/-- A touch inside of its object is all that is read. -/
theorem reads_singleton {t : Touch} {data end' : Nat} (hdata : t.data = data)
    (hend : t.offset + t.size = end') (hfits : end' ≤ (device.objects data).size) :
    Reads device (some [t]) fun other x => other = data ∧ t.offset ≤ x ∧ x < end' := by
  subst hdata hend
  constructor
  · refine ⟨rfl, fun other hother => ?_, ?_⟩
    · rw [List.mem_singleton.mp hother]
      exact Touch.fits_of_le hfits
    · rintro other x ⟨rfl, hlow, hhigh⟩
      exact ⟨t, List.mem_singleton_self t, Touch.has_of_le hfits rfl hlow hhigh⟩

/-- The elements of an array one after the other. -/
theorem touchElements_reads {count : Nat} {elementTouches : Nat → Option (List Touch)}
    {Names : Nat → Nat → Nat → Prop}
    (helements : ∀ j < count, Reads device (elementTouches j) (Names j)) :
    Reads device (touchElements count elementTouches) fun data x =>
      ∃ j < count, Names j data x := by
  -- the loop over the numbers, for any list of them
  suffices h : ∀ indices : List Nat, (∀ j ∈ indices, Reads device (elementTouches j) (Names j)) →
      Reads device ((indices.mapM elementTouches).map List.flatten) fun data x =>
        ∃ j ∈ indices, Names j data x by
    have hrange := h (List.range count) fun j hj => helements j (List.mem_range.mp hj)
    exact hrange.mono fun data x ⟨j, hj, hnames⟩ => ⟨j, List.mem_range.mpr hj, hnames⟩
  intro indices hindices
  induction indices with
  | nil => exact reads_nil.mono fun _ _ ⟨j, hj, _⟩ => absurd hj List.not_mem_nil
  | cons j indices ih =>
      obtain ⟨first, hfirst, hfits, hhas⟩ := hindices j List.mem_cons_self
      obtain ⟨rest, hrest, hrestFits, hrestHas⟩ :=
        ih fun i hi => hindices i (List.mem_cons_of_mem _ hi)
      obtain ⟨lists, hlists, rfl⟩ := Option.map_eq_some_iff.mp hrest
      refine ⟨first ++ lists.flatten, by simp [hfirst, hlists], fun t ht => ?_, ?_⟩
      · rcases List.mem_append.mp ht with ht | ht
        · exact hfits t ht
        · exact hrestFits t ht
      · rintro data x ⟨i, hi, hnames⟩
        rcases List.mem_cons.mp hi with rfl | hi
        · obtain ⟨t, ht, hhas⟩ := hhas data x hnames
          exact ⟨t, List.mem_append_left _ ht, hhas⟩
        · obtain ⟨t, ht, hhas⟩ := hrestHas data x ⟨i, hi, hnames⟩
          exact ⟨t, List.mem_append_right _ ht, hhas⟩

/-- What the code makes of `VK_WHOLE_SIZE` ends where the range ends. -/
theorem add_bufferRange {object : TrackedObject} {offset range : Nat}
    (hfits : RangeFits object offset range) :
    offset + bufferRange object offset range = rangeEnd object offset range := by
  unfold bufferRange rangeEnd
  split_ifs
  · rw [TrackedObject.rest_eq hfits.1]
    exact Nat.add_sub_of_le hfits.1
  · rfl

theorem touchWhole_reads {data : Nat} :
    Reads device (some [touchWhole device data]) fun other x =>
      other = data ∧ x < (device.objects data).size :=
  (reads_singleton rfl (Nat.zero_add _) le_rfl).mono fun _ x ⟨hdata, hhigh⟩ =>
    ⟨hdata, Nat.zero_le x, hhigh⟩

theorem image_reads {imageView : Option Nat}
    (hview : ∀ view ∈ imageView, (device.imageViews view).isSome) :
    Reads device (touchHandle device.imageViews (touchWhole device) imageView) fun data x =>
      (Descriptor.image imageView).Names device data x := by
  cases imageView with
  | none => exact reads_nil
  | some view =>
      obtain ⟨image, himage⟩ := Option.isSome_iff_exists.mp (hview view rfl)
      show Reads device ((device.imageViews view).map _) _
      rw [himage]
      apply touchWhole_reads.mono
      rintro data x ⟨hdata, hhigh⟩
      rw [himage] at hdata
      cases hdata
      exact ⟨rfl, hhigh⟩

theorem buffer_reads {info : BufferInfo} (hvalid : (Descriptor.buffer info).Valid device) :
    Reads device (touchBuffer device info) fun data x =>
      (Descriptor.buffer info).Names device data x := by
  unfold touchBuffer
  cases hbuffer : info.buffer with
  | none =>
      apply reads_nil.mono
      rintro data x ⟨hsome, -⟩
      rw [hbuffer] at hsome
      cases hsome
  | some buffer =>
      have hfits : RangeFits (device.objects buffer) info.offset info.range := hvalid buffer hbuffer
      apply (reads_singleton rfl (add_bufferRange hfits) hfits.2).mono
      rintro data x ⟨hsome, hlow, hhigh⟩
      rw [hbuffer] at hsome
      cases hsome
      exact ⟨rfl, hlow, hhigh⟩

theorem texelBuffer_reads {bufferView : Option Nat}
    (hvalid : (Descriptor.texelBuffer bufferView).Valid device) :
    Reads device (touchHandle device.bufferViews
        (fun view => ⟨view.buffer, view.offset, view.range⟩) bufferView) fun data x =>
      (Descriptor.texelBuffer bufferView).Names device data x := by
  cases bufferView with
  | none => exact reads_nil
  | some view =>
      obtain ⟨v, hv, hoffset, hend⟩ := hvalid
      show Reads device ((device.bufferViews view).map _) _
      rw [hv]
      -- the whole size is left to `touch`
      have hlength : v.offset + (Touch.length device.objects ⟨v.buffer, v.offset, v.range⟩) =
          rangeEnd (device.objects v.buffer) v.offset v.range := by
        unfold Touch.length rangeEnd
        split_ifs
        · rw [TrackedObject.rest_eq hoffset]
          exact Nat.add_sub_of_le hoffset
        · rfl
      constructor
      · refine ⟨rfl, fun t ht => ?_, ?_⟩
        · rw [List.mem_singleton.mp ht]
          show v.offset + _ ≤ _
          rw [hlength]
          exact hend
        · rintro data x ⟨v', hv', rfl, hlow, hhigh⟩
          rw [hv] at hv'
          cases hv'
          refine ⟨_, List.mem_singleton_self _, rfl, hlow, ?_⟩
          show x < v.offset + _
          rwa [hlength]

theorem tensor_reads {tensorView : Option Nat}
    (hvalid : (Descriptor.tensor tensorView).Valid device) :
    Reads device (touchHandle device.tensorViews (touchWhole device) tensorView) fun data x =>
      (Descriptor.tensor tensorView).Names device data x := by
  cases tensorView with
  | none => exact reads_nil
  | some view =>
      obtain ⟨tensor, htensor⟩ := Option.isSome_iff_exists.mp hvalid
      show Reads device ((device.tensorViews view).map _) _
      rw [htensor]
      apply touchWhole_reads.mono
      rintro data x ⟨hdata, hhigh⟩
      rw [htensor] at hdata
      cases hdata
      exact ⟨rfl, hhigh⟩

/-- A descriptor of the write names the byte. -/
def WriteDescriptorSet.Names (device : Device) (write : WriteDescriptorSet) (data x : Nat) : Prop :=
  ∃ j < write.descriptorCount, (write.descriptor j).Names device data x

/-- **One write.** -/
theorem WriteDescriptorSet.reads {write : WriteDescriptorSet} (hvalid : write.Valid device)
    (hviews : write.ViewsThere device) :
    Reads device (write.touches device) (write.Names device) := by
  obtain ⟨hformed, hdescriptors⟩ := hvalid
  obtain ⟨dstSet, dstBinding, dstArrayElement, descriptorCount, data⟩ := write
  cases data with
  | image type imageViews =>
      apply touchElements_reads
      intro j hj
      cases type with
      -- a sampler has no bytes
      | sampler => exact (image_reads (hviews j hj)).mono fun _ _ h => h.elim
      | _ =>
          refine image_reads fun view hview => ?_
          have hthere := hdescriptors j hj
          simp only [WriteDescriptorSet.descriptor] at hthere
          rw [Option.mem_def.mp hview] at hthere
          exact hthere
  | buffer bufferInfo => exact touchElements_reads fun j hj => buffer_reads (hdescriptors j hj)
  | dynamicBuffer bufferInfo => exact reads_nil.mono fun _ _ ⟨_, _, h⟩ => h
  | texelBuffer texelBufferView =>
      exact touchElements_reads fun j hj => texelBuffer_reads (hdescriptors j hj)
  | inlineUniformBlock found =>
      cases hformed
      exact reads_nil.mono fun _ _ ⟨_, _, h⟩ => h
  | accelerationStructure count =>
      have hcount : count = some descriptorCount := hformed
      subst hcount
      show Reads device (if _ then _ else _) _
      rw [if_pos rfl]
      exact reads_nil.mono fun _ _ ⟨_, _, h⟩ => h
  | tensor tensorViews =>
      obtain ⟨views, hviews⟩ : ∃ views, tensorViews = some (descriptorCount, views) := hformed
      subst hviews
      show Reads device (if _ then _ else _) _
      rw [if_pos rfl]
      exact touchElements_reads fun j hj => tensor_reads (hdescriptors j hj)
  | unsupported => exact hformed.elim

/-! ## Updates -/

variable {sets next : Nat → DescriptorSet} {write : WriteDescriptorSet}
variable {writes : List WriteDescriptorSet} {copies : List CopyDescriptorSet}
variable {held : Nat → Slot → Descriptor}

/-- Every set is sound. -/
def AllSound (device : Device) (sets : Nat → DescriptorSet) : Prop :=
  ∀ set, Sound device.objects (sets set).touched

/-- The sets have kept what they had touched. -/
def Grown (sets next : Nat → DescriptorSet) : Prop :=
  ∀ set data x, Mem (sets set).touched data x → Mem (next set).touched data x

/-- **One round of the writes.** -/
theorem writeDescriptorSet_spec (hsound : AllSound device sets) (hvalid : write.Valid device)
    (hviews : write.ViewsThere device) :
    ∃ next, writeDescriptorSet device sets write = some next ∧ AllSound device next ∧
      Grown sets next ∧
        ∀ data x, (device.objects data).accessible = true → write.Names device data x →
          Mem (next write.dstSet).touched data x := by
  obtain ⟨touches, htouches, hfits, hhas⟩ := WriteDescriptorSet.reads hvalid hviews
  obtain ⟨touched, htouched, htouchedSound, hmem⟩ :=
    touchAll_spec (hsound write.dstSet) fun t ht _ => hfits t ht
  refine ⟨Function.update sets write.dstSet
    ⟨touched, write.dynamicBuffers (sets write.dstSet).dynamicBuffers⟩, ?_, ?_, ?_, ?_⟩
  · show (write.touches device).bind _ = _
    rw [htouches, Option.bind_some, htouched]
    rfl
  · intro set
    by_cases hset : set = write.dstSet
    · subst hset
      simpa using htouchedSound
    · simpa [hset] using hsound set
  · intro set data x hx
    by_cases hset : set = write.dstSet
    · subst hset
      simpa using (hmem data x).mpr (Or.inl hx)
    · simpa [hset] using hx
  · intro data x haccessible hnames
    simpa using (hmem data x).mpr (Or.inr ⟨haccessible, hhas data x hnames⟩)

/-- **All writes.** -/
theorem writeDescriptorSets_spec (hsound : AllSound device sets)
    (hvalid : ∀ write ∈ writes, write.Valid device)
    (hviews : ∀ write ∈ writes, write.ViewsThere device) :
    ∃ next, exec (writeDescriptorSet device) sets writes = some next ∧ AllSound device next ∧
      Grown sets next ∧
        ∀ write ∈ writes, ∀ data x, (device.objects data).accessible = true →
          write.Names device data x → Mem (next write.dstSet).touched data x := by
  induction writes generalizing sets with
  | nil => exact ⟨sets, rfl, hsound, fun _ _ _ h => h, fun _ h => absurd h List.not_mem_nil⟩
  | cons write writes ih =>
      obtain ⟨middle, hstep, hmiddle, hgrown, hnamed⟩ := writeDescriptorSet_spec hsound
        (hvalid write List.mem_cons_self) (hviews write List.mem_cons_self)
      obtain ⟨next, hrest, hnext, hrestGrown, hrestNamed⟩ := ih hmiddle
        (fun other hother => hvalid other (List.mem_cons_of_mem _ hother))
        (fun other hother => hviews other (List.mem_cons_of_mem _ hother))
      refine ⟨next, exec_cons_eq_some_iff.mpr ⟨middle, hstep, hrest⟩, hnext, ?_, ?_⟩
      · intro set data x hx
        exact hrestGrown set data x (hgrown set data x hx)
      · intro other hother data x haccessible hnames
        rcases List.mem_cons.mp hother with rfl | hother
        · exact hrestGrown _ data x (hnamed data x haccessible hnames)
        · exact hrestNamed other hother data x haccessible hnames

theorem clearWritten_sound (hsound : AllSound device sets) :
    AllSound device (clearWritten sets writes) := by
  intro set
  unfold clearWritten
  split_ifs
  · exact sound_empty
  · exact hsound set

theorem assign_eq (set other : Nat) (slot otherSlot : Slot) (descriptor : Descriptor) :
    assign held set slot descriptor other otherSlot =
      if other = set ∧ otherSlot = slot then descriptor else held other otherSlot := by
  unfold assign
  by_cases hset : other = set
  · subst hset
    by_cases hslot : otherSlot = slot <;> simp [hslot]
  · simp [hset]

/-- A slot behind a write holds one of its descriptors, or what it held. -/
theorem writeHeld_spec (set : Nat) (slot : Slot) :
    (Kept device [write] set slot ∧ writeHeld device held write set slot = held set slot) ∨
      (write.dstSet = set ∧ ∃ j < write.descriptorCount,
        writeHeld device held write set slot = write.descriptor j) := by
  suffices h : ∀ count, let after := (List.range count).foldl (fun held j =>
        assign held write.dstSet (write.slot device j) (write.descriptor j)) held
      ((write.dstSet = set → ∀ j < count, write.slot device j ≠ slot) ∧
          after set slot = held set slot) ∨
        (write.dstSet = set ∧ ∃ j < count, after set slot = write.descriptor j) by
    rcases h write.descriptorCount with ⟨hkept, hsame⟩ | hwritten
    · exact Or.inl ⟨fun other hother => List.mem_singleton.mp hother ▸ hkept, hsame⟩
    · exact Or.inr hwritten
  intro count
  induction count with
  | zero => exact Or.inl ⟨fun _ j hj => absurd hj (Nat.not_lt_zero j), rfl⟩
  | succ count ih =>
      simp only [List.range_succ, List.foldl_append, List.foldl_cons, List.foldl_nil] at ih ⊢
      rw [assign_eq]
      split_ifs with hlast
      · exact Or.inr ⟨hlast.1.symm, count, Nat.lt_succ_self count, rfl⟩
      · rcases ih with ⟨hkept, hsame⟩ | ⟨hset, j, hj, hsame⟩
        · refine Or.inl ⟨fun hset j hj hslot => ?_, hsame⟩
          rcases Nat.lt_succ_iff_lt_or_eq.mp hj with hj | rfl
          · exact hkept hset j hj hslot
          · exact hlast ⟨hset.symm, hslot.symm⟩
        · exact Or.inr ⟨hset, j, hj.trans (Nat.lt_succ_self count), hsame⟩

/-- A slot behind all writes. -/
theorem writesHeld_spec (set : Nat) (slot : Slot) :
    (Kept device writes set slot ∧
        writes.foldl (writeHeld device) held set slot = held set slot) ∨
      ∃ write ∈ writes, write.dstSet = set ∧ ∃ j < write.descriptorCount,
        writes.foldl (writeHeld device) held set slot = write.descriptor j := by
  induction writes generalizing held with
  | nil => exact Or.inl ⟨fun _ h => absurd h List.not_mem_nil, rfl⟩
  | cons write writes ih =>
      rw [List.foldl_cons]
      rcases @ih (writeHeld device held write) with ⟨hkept, hsame⟩ | ⟨other, hother, hwritten⟩
      · rw [hsame]
        rcases @writeHeld_spec device write held set slot with ⟨hfirst, hheld⟩ | hwritten
        · refine Or.inl ⟨fun other hother => ?_, hheld⟩
          rcases List.mem_cons.mp hother with rfl | hother
          · exact hfirst _ (List.mem_singleton_self _)
          · exact hkept other hother
        · exact Or.inr ⟨write, List.mem_cons_self, hwritten⟩
      · exact Or.inr ⟨other, List.mem_cons_of_mem _ hother, hwritten⟩

/-- The touched map of every set has the bytes of its descriptors. -/
def Covering (device : Device) (sets : Nat → DescriptorSet) (held : Nat → Slot → Descriptor) :
    Prop :=
  ∀ set slot data x, (device.objects data).accessible = true →
    (held set slot).Names device data x → Mem (sets set).touched data x

/-- The writes of a call, behind the clearing of the sets that they go to. -/
theorem writes_covering {s : State} (hsound : AllSound device s.sets)
    (hcovering : Covering device s.sets s.held) (hvalid : ∀ write ∈ writes, write.Valid device)
    (hviews : ∀ write ∈ writes, write.ViewsThere device) (hrenewed : s.Renewed device writes) :
    ∃ next, exec (writeDescriptorSet device) (clearWritten s.sets writes) writes = some next ∧
      AllSound device next ∧ Covering device next (writes.foldl (writeHeld device) s.held) := by
  obtain ⟨next, hexec, hnext, hgrown, hnamed⟩ :=
    writeDescriptorSets_spec (clearWritten_sound hsound) hvalid hviews
  refine ⟨next, hexec, hnext, fun set slot data x haccessible hnames => ?_⟩
  rcases @writesHeld_spec device writes s.held set slot with
    ⟨hkept, hsame⟩ | ⟨write, hwrite, rfl, j, hj, hsame⟩
  · rw [hsame] at hnames
    by_cases hset : set ∈ writes.map WriteDescriptorSet.dstSet
    · -- the set is cleared, and one of the writes names the byte again
      obtain ⟨write, hwrite, rfl⟩ := List.mem_map.mp hset
      obtain ⟨other, hother, hdst, hother'⟩ :=
        hrenewed write hwrite slot hkept data x haccessible hnames
      rw [← hdst]
      exact hnamed other hother data x haccessible hother'
    · apply hgrown
      unfold clearWritten
      rw [if_neg hset]
      exact hcovering set slot data x haccessible hnames
  · rw [hsame] at hnames
    exact hnamed write hwrite data x haccessible ⟨j, hj, hnames⟩

/-- The loop of a copy over dynamic buffers leaves the touched bytes. -/
theorem copyDescriptorSet_touched (copy : CopyDescriptorSet) (set : Nat) :
    (copyDescriptorSet sets copy set).touched =
      if set = copy.dstSet then touchMerge (sets copy.dstSet).touched (sets copy.srcSet).touched
      else (sets set).touched := by
  unfold copyDescriptorSet
  simp only
  induction List.range copy.descriptorCount using List.reverseRecOn with
  | nil =>
      rw [List.foldl_nil]
      by_cases hset : set = copy.dstSet
      · subst hset
        simp
      · simp [hset]
  | append_singleton indices j ih =>
      rw [← ih, List.foldl_append, List.foldl_cons, List.foldl_nil]
      by_cases hset : set = copy.dstSet
      · subst hset
        rw [Function.update_self]
      · rw [Function.update_of_ne hset]

/-- A slot behind a copy holds a descriptor of the source, or what it held. -/
theorem copyHeld_spec (copy : CopyDescriptorSet) (set : Nat) (slot : Slot) :
    copyHeld device held copy set slot = held set slot ∨
      (set = copy.dstSet ∧ ∃ source, copyHeld device held copy set slot =
        held copy.srcSet source) := by
  unfold copyHeld
  induction List.range copy.descriptorCount using List.reverseRecOn generalizing set slot with
  | nil => exact Or.inl rfl
  | append_singleton indices j ih =>
      rw [List.foldl_append, List.foldl_cons, List.foldl_nil, assign_eq]
      split_ifs with hlast
      · -- the source may lie in the same set, and have been copied to before
        refine Or.inr ⟨hlast.1, ?_⟩
        rcases ih copy.srcSet
          (device.place copy.srcSet copy.srcBinding copy.srcArrayElement j) with hsame | ⟨-, h⟩
        · exact ⟨_, hsame⟩
        · exact h
      · exact ih set slot

/-- **One copy.** -/
theorem copy_covering (hsound : AllSound device sets) (hcovering : Covering device sets held)
    (copy : CopyDescriptorSet) :
    AllSound device (copyDescriptorSet sets copy) ∧
      Covering device (copyDescriptorSet sets copy) (copyHeld device held copy) := by
  obtain ⟨hmerged, hmem⟩ := touchMerge_spec (hsound copy.dstSet) (hsound copy.srcSet)
  constructor
  · intro set
    rw [copyDescriptorSet_touched]
    split_ifs
    · exact hmerged
    · exact hsound set
  · intro set slot data x haccessible hnames
    rw [copyDescriptorSet_touched]
    rcases @copyHeld_spec device held copy set slot with hsame | ⟨rfl, source, hsame⟩
    · rw [hsame] at hnames
      have hold := hcovering set slot data x haccessible hnames
      split_ifs with hset
      · subst hset
        exact (hmem data x).mpr (Or.inl hold)
      · exact hold
    · rw [hsame] at hnames
      rw [if_pos rfl]
      exact (hmem data x).mpr (Or.inr (hcovering copy.srcSet source data x haccessible hnames))

/-- **All copies.** -/
theorem copies_covering (hsound : AllSound device sets) (hcovering : Covering device sets held) :
    AllSound device (handleCopyDescriptorSets sets copies) ∧
      Covering device (handleCopyDescriptorSets sets copies)
        (copies.foldl (copyHeld device) held) := by
  unfold handleCopyDescriptorSets
  induction copies generalizing sets held with
  | nil => exact ⟨hsound, hcovering⟩
  | cons copy copies ih =>
      obtain ⟨hnext, hnextCovering⟩ := copy_covering hsound hcovering copy
      exact ih hnext hnextCovering

/-! ### Templates -/

section

variable {entry : TemplateEntry} {entries : List TemplateEntry} {pData : TemplateData}
variable {descriptorSet : Nat}

/-- Without a stride of zero the code reads what Vulkan reads. -/
theorem TemplateEntry.write_place {j : Nat} (hj : j < entry.descriptorCount)
    (hstride : entry.stride ≠ 0 ∨ entry.descriptorCount ≤ 1) :
    j * (if entry.stride = 0 then entry.descriptorType.elementSize else entry.stride) =
      j * entry.stride := by
  split_ifs with hzero
  · have hfirst : j = 0 := by
      rcases hstride with h | h
      · exact absurd hzero h
      · omega
    rw [hfirst, Nat.zero_mul, Nat.zero_mul]
  · rfl

/-- Two strides that lead to the same elements give the same descriptors. -/
theorem TemplateEntry.descriptor_writeAt {stride other j : Nat} (h : j * stride = j * other) :
    (entry.writeAt stride pData descriptorSet).descriptor j =
      (entry.writeAt other pData descriptorSet).descriptor j := by
  unfold TemplateEntry.writeAt WriteDescriptorSet.descriptor
  cases entry.descriptorType with
  | image type => cases type <;> simp [h]
  | _ => simp [h]

theorem TemplateEntry.formed_writeAt {stride other : Nat}
    (hformed : (entry.writeAt stride pData descriptorSet).Formed) :
    (entry.writeAt other pData descriptorSet).Formed := by
  unfold TemplateEntry.writeAt WriteDescriptorSet.Formed at *
  cases htype : entry.descriptorType with
  | tensor => exact ⟨_, rfl⟩
  | unsupported =>
      rw [htype] at hformed
      exact hformed
  | _ => trivial

theorem TemplateEntry.viewsThere_writeAt {stride other : Nat}
    (h : ∀ j < entry.descriptorCount, j * stride = j * other)
    (hviews : (entry.writeAt stride pData descriptorSet).ViewsThere device) :
    (entry.writeAt other pData descriptorSet).ViewsThere device := by
  unfold TemplateEntry.writeAt WriteDescriptorSet.ViewsThere at *
  cases htype : entry.descriptorType with
  | image type =>
      cases type with
      | sampler =>
          rw [htype] at hviews
          intro j hj view hview
          apply hviews j hj view
          simp only at hview ⊢
          rw [h j hj]
          exact hview
      | _ => trivial
  | _ => trivial

/-- The writes that the code makes of a template. -/
def tracerWrites (entries : List TemplateEntry) (pData : TemplateData) (descriptorSet : Nat) :
    List WriteDescriptorSet :=
  entries.map fun entry => entry.write pData descriptorSet

/-- Behind the first entry the loop over a template is the loop over its writes. -/
theorem updateTemplateEntries_false
    (hexec : exec (writeDescriptorSet device) sets (tracerWrites entries pData descriptorSet) =
      some next) :
    updateTemplateEntries device pData descriptorSet false sets entries = some next := by
  induction entries generalizing sets with
  | nil => exact hexec
  | cons entry entries ih =>
      obtain ⟨middle, hstep, hrest⟩ := exec_cons_eq_some_iff.mp hexec
      have hone : handleWriteDescriptorSets device false sets [entry.write pData descriptorSet] =
          some middle := exec_cons_eq_some_iff.mpr ⟨middle, hstep, rfl⟩
      rw [updateTemplateEntries, hone]
      exact ih hrest

/-- The set is cleared once, in front of the first entry. -/
theorem updateTemplateEntries_true
    (hexec : exec (writeDescriptorSet device)
      (clearWritten sets (tracerWrites entries pData descriptorSet))
      (tracerWrites entries pData descriptorSet) = some next) :
    updateTemplateEntries device pData descriptorSet true sets entries = some next := by
  cases entries with
  | nil =>
      have hclear : clearWritten sets [] = sets := by
        ext1 set
        exact if_neg List.not_mem_nil
      rw [updateTemplateEntries, ← hexec]
      show some sets = some (clearWritten sets [])
      rw [hclear]
  | cons entry entries =>
      -- all writes of a template go to one set, so clearing it for the first clears it for all
      have hclear : clearWritten sets (tracerWrites (entry :: entries) pData descriptorSet) =
          clearWritten sets [entry.write pData descriptorSet] := by
        ext1 set
        unfold clearWritten
        have hiff : set ∈ (tracerWrites (entry :: entries) pData descriptorSet).map
            WriteDescriptorSet.dstSet ↔
              set ∈ [entry.write pData descriptorSet].map WriteDescriptorSet.dstSet := by
          constructor
          · intro hmem
            obtain ⟨write, hwrite, rfl⟩ := List.mem_map.mp hmem
            obtain ⟨other, -, rfl⟩ := List.mem_map.mp hwrite
            exact List.mem_singleton_self _
          · intro hmem
            rw [List.map_singleton, List.mem_singleton] at hmem
            rw [hmem]
            exact List.mem_cons_self
        simp only [hiff]
      rw [hclear] at hexec
      obtain ⟨middle, hstep, hrest⟩ := exec_cons_eq_some_iff.mp hexec
      have hone : handleWriteDescriptorSets device true sets [entry.write pData descriptorSet] =
          some middle := exec_cons_eq_some_iff.mpr ⟨middle, hstep, rfl⟩
      rw [updateTemplateEntries, hone]
      exact updateTemplateEntries_false hrest

/-- The writes of the code do what those of Vulkan do. -/
theorem tracerWrites_held (hstrides : ∀ entry ∈ entries,
      entry.stride ≠ 0 ∨ entry.descriptorCount ≤ 1) :
    (tracerWrites entries pData descriptorSet).foldl (writeHeld device) held =
      (templateWrites entries pData descriptorSet).foldl (writeHeld device) held := by
  unfold tracerWrites templateWrites
  rw [List.foldl_map, List.foldl_map]
  refine List.foldl_ext _ _ _ fun held entry hentry => ?_
  refine List.foldl_ext _ _ _ fun held j hj => ?_
  have hplace := entry.write_place (List.mem_range.mp hj) (hstrides entry hentry)
  show assign held descriptorSet _ _ = assign held descriptorSet _ _
  unfold TemplateEntry.write
  rw [TemplateEntry.descriptor_writeAt hplace]
  rfl

/-- What is asked of the writes of Vulkan also holds of those of the code. -/
theorem tracerWrites_renewed {s : State} (hstrides : ∀ entry ∈ entries,
      entry.stride ≠ 0 ∨ entry.descriptorCount ≤ 1)
    (hrenewed : s.Renewed device (templateWrites entries pData descriptorSet)) :
    s.Renewed device (tracerWrites entries pData descriptorSet) := by
  intro write hwrite slot hkept data x haccessible hnames
  obtain ⟨entry, hentry, rfl⟩ := List.mem_map.mp hwrite
  have hkept' : Kept device (templateWrites entries pData descriptorSet) descriptorSet slot := by
    intro other hother _ j hj
    obtain ⟨source, hsource, rfl⟩ := List.mem_map.mp hother
    exact hkept _ (List.mem_map_of_mem hsource) rfl j hj
  obtain ⟨other, hother, hset, j, hj, hnamed⟩ :=
    hrenewed _ (List.mem_map_of_mem hentry) slot hkept' data x haccessible hnames
  obtain ⟨source, hsource, rfl⟩ := List.mem_map.mp hother
  refine ⟨_, List.mem_map_of_mem hsource, rfl, j, hj, ?_⟩
  have hplace := source.write_place hj (hstrides source hsource)
  unfold TemplateEntry.write
  rw [TemplateEntry.descriptor_writeAt hplace]
  exact hnamed

theorem tracerWrites_valid (hstrides : ∀ entry ∈ entries,
      entry.stride ≠ 0 ∨ entry.descriptorCount ≤ 1)
    (hvalid : ∀ write ∈ templateWrites entries pData descriptorSet, write.Valid device) :
    ∀ write ∈ tracerWrites entries pData descriptorSet, write.Valid device := by
  intro write hwrite
  obtain ⟨entry, hentry, rfl⟩ := List.mem_map.mp hwrite
  obtain ⟨hformed, hdescriptors⟩ := hvalid _ (List.mem_map_of_mem hentry)
  constructor
  · exact TemplateEntry.formed_writeAt hformed
  · intro j hj
    have hplace := entry.write_place hj (hstrides entry hentry)
    unfold TemplateEntry.write
    rw [TemplateEntry.descriptor_writeAt hplace]
    exact hdescriptors j hj

theorem tracerWrites_viewsThere (hstrides : ∀ entry ∈ entries,
      entry.stride ≠ 0 ∨ entry.descriptorCount ≤ 1)
    (hviews : ∀ write ∈ templateWrites entries pData descriptorSet, write.ViewsThere device) :
    ∀ write ∈ tracerWrites entries pData descriptorSet, write.ViewsThere device := by
  intro write hwrite
  obtain ⟨entry, hentry, rfl⟩ := List.mem_map.mp hwrite
  exact TemplateEntry.viewsThere_writeAt
    (fun j hj => (entry.write_place hj (hstrides entry hentry)).symm)
    (hviews _ (List.mem_map_of_mem hentry))

/-- **One update through a template.** -/
theorem template_covering {s : State} (hsound : AllSound device s.sets)
    (hcovering : Covering device s.sets s.held)
    (hvalid : ∀ write ∈ templateWrites entries pData descriptorSet, write.Valid device)
    (hviews : ∀ write ∈ templateWrites entries pData descriptorSet, write.ViewsThere device)
    (hstrides : ∀ entry ∈ entries, entry.stride ≠ 0 ∨ entry.descriptorCount ≤ 1)
    (hrenewed : s.Renewed device (templateWrites entries pData descriptorSet)) :
    ∃ next, updateTemplateEntries device pData descriptorSet true s.sets entries = some next ∧
      AllSound device next ∧ Covering device next
        ((templateWrites entries pData descriptorSet).foldl (writeHeld device) s.held) := by
  obtain ⟨next, hexec, hnext, hnextCovering⟩ := writes_covering hsound hcovering
    (tracerWrites_valid hstrides hvalid) (tracerWrites_viewsThere hstrides hviews)
    (tracerWrites_renewed hstrides hrenewed)
  rw [tracerWrites_held hstrides] at hnextCovering
  exact ⟨next, updateTemplateEntries_true hexec, hnext, hnextCovering⟩

end

/-! ### Binding -/

variable {touched : Touched} {pDynamicOffsets : List Nat} {dynamicIndex : Nat}

theorem DynamicFits.split {front back : List (Nat × BufferInfo)}
    (h : DynamicFits device pDynamicOffsets dynamicIndex (front ++ back)) :
    DynamicFits device pDynamicOffsets dynamicIndex front ∧
      DynamicFits device pDynamicOffsets (dynamicIndex + front.length) back := by
  constructor
  · intro i entry hentry
    apply h i entry
    rw [List.getElem?_append_left (List.getElem?_eq_some_iff.mp hentry).1]
    exact hentry
  · intro i entry hentry
    rw [Nat.add_assoc]
    apply h (front.length + i) entry
    rw [List.getElem?_append_right (Nat.le_add_right _ _), Nat.add_sub_cancel_left]
    exact hentry

/-- The dynamic offsets do not run out. -/
theorem DynamicFits.index_le {entries : List (Nat × BufferInfo)}
    (h : DynamicFits device pDynamicOffsets dynamicIndex entries)
    (hindex : dynamicIndex ≤ pDynamicOffsets.length) :
    dynamicIndex + entries.length ≤ pDynamicOffsets.length := by
  cases entries using List.reverseRecOn with
  | nil => exact hindex
  | append_singleton entries last =>
      obtain ⟨dynamicOffset, hsome, -⟩ := h entries.length last (by simp)
      have hlt := (List.getElem?_eq_some_iff.mp hsome).1
      rw [List.length_append, List.length_singleton]
      omega

/-- **The dynamic buffers of a set.** -/
theorem bindDynamicBuffers_spec {entries : List (Nat × BufferInfo)}
    (hsound : Sound device.objects touched)
    (hfits : DynamicFits device pDynamicOffsets dynamicIndex entries) :
    ∃ next, bindDynamicBuffers device pDynamicOffsets (touched, dynamicIndex) entries =
        some (next, dynamicIndex + entries.length) ∧
      Sound device.objects next ∧ ∀ data x, Mem touched data x → Mem next data x := by
  induction entries generalizing touched dynamicIndex with
  | nil => exact ⟨touched, rfl, hsound, fun _ _ h => h⟩
  | cons entry entries ih =>
      obtain ⟨slot, info⟩ := entry
      obtain ⟨hone, hrest⟩ := DynamicFits.split (show DynamicFits device pDynamicOffsets
        dynamicIndex ([(slot, info)] ++ entries) from hfits)
      obtain ⟨dynamicOffset, hoffset, hbuffer⟩ := hone 0 (slot, info) rfl
      rw [List.length_singleton] at hrest
      rw [Nat.add_zero] at hoffset
      rw [List.length_cons, Nat.add_comm entries.length, ← Nat.add_assoc]
      cases hsome : info.buffer with
      -- a slot without a buffer takes its offset all the same
      | none =>
          obtain ⟨next, hnext, hkept⟩ := ih hsound hrest
          refine ⟨next, ?_, hkept⟩
          rw [bindDynamicBuffers, hsome]
          exact hnext
      | some buffer =>
          have htouch : (device.objects buffer).accessible = true →
              Touch.Fits device.objects ⟨buffer, (info.offset + dynamicOffset) % 2 ^ 64,
                bufferRange (device.objects buffer) ((info.offset + dynamicOffset) % 2 ^ 64)
                  info.range⟩ := by
            intro haccessible
            have hrange := hbuffer buffer hsome haccessible
            have hlt := (device.objects buffer).size_lt
            -- the sum of the offsets does not wrap, as it lies in the buffer
            have hmod : (info.offset + dynamicOffset) % 2 ^ 64 = info.offset + dynamicOffset :=
              Nat.mod_eq_of_lt (hrange.1.trans_lt hlt)
            rw [hmod]
            apply Touch.fits_of_le
            show info.offset + dynamicOffset + bufferRange _ _ _ ≤ _
            rw [add_bufferRange hrange]
            exact hrange.2
          obtain ⟨middle, hstep, hmiddle, hmem⟩ := touch_spec hsound (t := ⟨buffer, _, _⟩) htouch
          obtain ⟨next, hnext, hkept, hgrown⟩ := ih hmiddle hrest
          refine ⟨next, ?_, hkept, fun data x hx => hgrown data x ((hmem data x).mpr (Or.inl hx))⟩
          rw [bindDynamicBuffers, hsome]
          simp only [hoffset, Option.bind_some, hstep]
          exact hnext

/-- **The loop over the sets of a binding.** -/
theorem bindDescriptorSets_spec {pDescriptorSets : List Nat} (hsets : AllSound device sets)
    (hsound : Sound device.objects touched) (hindex : dynamicIndex ≤ pDynamicOffsets.length)
    (hfits : DynamicFits device pDynamicOffsets dynamicIndex
      (pDescriptorSets.flatMap fun set => (sets set).dynamicBuffers.entries)) :
    ∃ next last, exec (bindDescriptorSet device sets pDynamicOffsets) (touched, dynamicIndex)
        (pDescriptorSets.map some) = some (next, last) ∧
      Sound device.objects next ∧ (∀ data x, Mem touched data x → Mem next data x) ∧
        ∀ set ∈ pDescriptorSets, ∀ data x, Mem (sets set).touched data x → Mem next data x := by
  induction pDescriptorSets generalizing touched dynamicIndex with
  | nil => exact ⟨touched, dynamicIndex, rfl, hsound, fun _ _ h => h,
      fun _ h => absurd h List.not_mem_nil⟩
  | cons set pDescriptorSets ih =>
      rw [List.flatMap_cons] at hfits
      obtain ⟨hone, hrest⟩ := hfits.split
      obtain ⟨hmerged, hmem⟩ := touchMerge_spec hsound (hsets set)
      obtain ⟨middle, hdynamic, hmiddle, hgrown⟩ := bindDynamicBuffers_spec hmerged hone
      have hindex' := hone.index_le hindex
      obtain ⟨next, last, hexec, hnext, hkept, hhas⟩ := ih hmiddle hindex' hrest
      refine ⟨next, last, ?_, hnext, ?_, ?_⟩
      · refine exec_cons_eq_some_iff.mpr ⟨_, ?_, hexec⟩
        rw [bindDescriptorSet, hdynamic, Option.bind_some]
        exact if_pos hindex'
      · intro data x hx
        exact hkept data x (hgrown data x ((hmem data x).mpr (Or.inl hx)))
      · intro other hother data x hx
        rcases List.mem_cons.mp hother with rfl | hother
        · exact hkept data x (hgrown data x ((hmem data x).mpr (Or.inr hx)))
        · exact hhas other hother data x hx

/-- **One binding** takes over what the sets have touched. -/
theorem postCmdBindDescriptorSets_spec {s : State} {pDescriptorSets : List (Option Nat)}
    (hsets : AllSound device s.sets) (hsound : Sound device.objects touched)
    (hbindable : s.Bindable device pDescriptorSets pDynamicOffsets) :
    ∃ next, postCmdBindDescriptorSets device s.sets touched pDescriptorSets pDynamicOffsets =
        some next ∧
      Sound device.objects next ∧ (∀ data x, Mem touched data x → Mem next data x) ∧
        ∀ set, some set ∈ pDescriptorSets → ∀ data x, Mem (s.sets set).touched data x →
          Mem next data x := by
  obtain ⟨bound, rfl, hfits⟩ := hbindable
  obtain ⟨next, last, hexec, hnext, hkept, hhas⟩ :=
    bindDescriptorSets_spec hsets hsound (Nat.zero_le _) hfits
  refine ⟨next, ?_, hnext, hkept, fun set hset => ?_⟩
  · unfold postCmdBindDescriptorSets
    rw [hexec, Option.map_some]
  · obtain ⟨other, hother, hsome⟩ := List.mem_map.mp hset
    cases hsome
    exact hhas set hother

/-- A binding for some of the three stages. -/
theorem postCmdBindDescriptorSets2_spec {s : State} {pDescriptorSets : List (Option Nat)}
    {stageFlags : ShaderStages} (hsets : AllSound device s.sets)
    (hsound : Sound device.objects touched)
    (hbindable : s.Bindable device pDescriptorSets pDynamicOffsets)
    (hstages : stageFlags.vertex = true ∨ stageFlags.fragment = true ∨
      stageFlags.compute = true) :
    ∃ next, postCmdBindDescriptorSets2 device s.sets touched stageFlags pDescriptorSets
        pDynamicOffsets = some next ∧
      Sound device.objects next ∧ (∀ data x, Mem touched data x → Mem next data x) ∧
        ∀ set, some set ∈ pDescriptorSets → ∀ data x, Mem (s.sets set).touched data x →
          Mem next data x := by
  obtain ⟨graphics, hgraphics, hgraphicsSound, hgraphicsKept, hgraphicsHas⟩ :=
    postCmdBindDescriptorSets_spec hsets hsound hbindable
  unfold postCmdBindDescriptorSets2
  by_cases hdraws : (stageFlags.vertex || stageFlags.fragment) = true
  · rw [if_pos hdraws, hgraphics, Option.bind_some]
    split_ifs
    · obtain ⟨next, hnext, hnextSound, hkept, hhas⟩ :=
        postCmdBindDescriptorSets_spec hsets hgraphicsSound hbindable
      exact ⟨next, hnext, hnextSound,
        fun data x hx => hkept data x (hgraphicsKept data x hx), hhas⟩
    · exact ⟨graphics, rfl, hgraphicsSound, hgraphicsKept, hgraphicsHas⟩
  · rw [if_neg hdraws, Option.bind_some]
    rw [Bool.or_eq_true, not_or] at hdraws
    rw [if_pos ((hstages.resolve_left hdraws.1).resolve_left hdraws.2)]
    exact ⟨graphics, hgraphics, hgraphicsSound, hgraphicsKept, hgraphicsHas⟩

/-- Pushed descriptors. -/
theorem pushDescriptorSets_spec (hsound : Sound device.objects touched)
    (hvalid : ∀ write ∈ writes, write.Valid device)
    (hviews : ∀ write ∈ writes, write.ViewsThere device) :
    ∃ next, pushDescriptorSets device touched writes = some next ∧ Sound device.objects next ∧
      (∀ data x, Mem touched data x → Mem next data x) ∧
        ∀ write ∈ writes, ∀ data x, (device.objects data).accessible = true →
          write.Names device data x → Mem next data x := by
  unfold pushDescriptorSets
  induction writes generalizing touched with
  | nil => exact ⟨touched, rfl, hsound, fun _ _ h => h, fun _ h => absurd h List.not_mem_nil⟩
  | cons write writes ih =>
      obtain ⟨touches, htouches, hfits, hhas⟩ := WriteDescriptorSet.reads
        (hvalid write List.mem_cons_self) (hviews write List.mem_cons_self)
      obtain ⟨middle, hmiddle, hmiddleSound, hmem⟩ :=
        touchAll_spec hsound fun t ht _ => hfits t ht
      obtain ⟨next, hrest, hnext, hkept, hnamed⟩ := ih hmiddleSound
        (fun other hother => hvalid other (List.mem_cons_of_mem _ hother))
        (fun other hother => hviews other (List.mem_cons_of_mem _ hother))
      refine ⟨next, exec_cons_eq_some_iff.mpr ⟨middle, ?_, hrest⟩, hnext, ?_, ?_⟩
      · rw [htouches, Option.bind_some, hmiddle]
      · intro data x hx
        exact hkept data x ((hmem data x).mpr (Or.inl hx))
      · intro other hother data x haccessible hnames
        rcases List.mem_cons.mp hother with rfl | hother
        · exact hkept data x ((hmem data x).mpr (Or.inr ⟨haccessible, hhas data x hnames⟩))
        · exact hnamed other hother data x haccessible hnames

/-! ### Every call -/

/-- What every state of a run keeps. -/
structure Inv (device : Device) (s : State) : Prop where
  sets : AllSound device s.sets
  covering : Covering device s.sets s.held
  commandBuffers : ∀ i, Sound device.objects (s.commandBuffers i)
  named : ∀ i data x, (device.objects data).accessible = true → s.named i data x →
    Mem (s.commandBuffers i) data x

variable {s : State}

theorem inv_init (device : Device) : Inv device {} where
  sets _ := sound_empty
  covering _ _ _ _ _ h := h.elim
  commandBuffers _ := sound_empty
  named := nofun

/-- A command buffer that has touched more, and what it had. -/
theorem Inv.record (hinv : Inv device s) {commandBuffer : Nat} {Names : Nat → Nat → Prop}
    (hsound : Sound device.objects touched)
    (hkept : ∀ data x, Mem (s.commandBuffers commandBuffer) data x → Mem touched data x)
    (hnames : ∀ data x, (device.objects data).accessible = true → Names data x →
      Mem touched data x) :
    Inv device { s with
      commandBuffers := Function.update s.commandBuffers commandBuffer touched
      named := fun i data x => s.named i data x ∨ (i = commandBuffer ∧ Names data x) } where
  sets := hinv.sets
  covering := hinv.covering
  commandBuffers i := by
    by_cases hi : i = commandBuffer
    · subst hi
      simpa using hsound
    · simpa [hi] using hinv.commandBuffers i
  named i data x haccessible := by
    rintro (hnamed | ⟨rfl, hnew⟩)
    · have hold := hinv.named i data x haccessible hnamed
      by_cases hi : i = commandBuffer
      · subst hi
        simpa using hkept data x hold
      · simpa [hi] using hold
    · simpa using hnames data x haccessible hnew

/-- What bound sets name is covered by what they have touched. -/
theorem Inv.bind (hinv : Inv device s) {commandBuffer : Nat} {pDescriptorSets : List (Option Nat)}
    (hsound : Sound device.objects touched)
    (hkept : ∀ data x, Mem (s.commandBuffers commandBuffer) data x → Mem touched data x)
    (hhas : ∀ set, some set ∈ pDescriptorSets → ∀ data x, Mem (s.sets set).touched data x →
      Mem touched data x) :
    Inv device (s.bind device commandBuffer pDescriptorSets touched) := by
  apply hinv.record hsound hkept
  rintro data x haccessible ⟨set, hset, slot, hnames⟩
  exact hhas set hset data x (hinv.covering set slot data x haccessible hnames)

/-- **One call.** -/
theorem step_inv {label : Label} (hinv : Inv device s) (hvalid : label.Valid device)
    (hcovered : label.Covered device s) :
    ∃ next, step device s label = some next ∧ Inv device next := by
  cases label with
  | updateDescriptorSets writes copies =>
      obtain ⟨hviews, hrenewed⟩ := hcovered
      obtain ⟨written, hwritten, hsound, hcovering⟩ :=
        writes_covering hinv.sets hinv.covering hvalid hviews hrenewed
      obtain ⟨hcopied, hcopiedCovering⟩ := @copies_covering device written copies _ hsound hcovering
      have hhandle : handleWriteDescriptorSets device true s.sets writes = some written := hwritten
      refine ⟨_, by rw [step, hhandle]; rfl, ?_⟩
      exact ⟨hcopied, hcopiedCovering, hinv.commandBuffers, hinv.named⟩
  | updateDescriptorSetWithTemplate descriptorSet entries pData =>
      cases pData with
      | none => exact ⟨_, rfl, hinv.sets, hinv.covering, hinv.commandBuffers, hinv.named⟩
      | some data =>
          obtain ⟨hviews, hstrides, hrenewed⟩ := hcovered data rfl
          obtain ⟨next, hnext, hsound, hcovering⟩ := template_covering hinv.sets hinv.covering
            (hvalid data rfl) hviews hstrides hrenewed
          have hhandle : handleDescriptorUpdateTemplate device s.sets descriptorSet entries
              (some data) = some next := hnext
          refine ⟨_, by rw [step, hhandle]; rfl, ?_⟩
          exact ⟨hsound, hcovering, hinv.commandBuffers, hinv.named⟩
  | beginCommandBuffer commandBuffer =>
      refine ⟨_, rfl, hinv.sets, hinv.covering, fun i => ?_, fun i data x haccessible hnamed => ?_⟩
      · by_cases hi : i = commandBuffer
        · subst hi
          simpa using sound_empty
        · simpa [hi] using hinv.commandBuffers i
      · simpa [hnamed.1] using hinv.named i data x haccessible hnamed.2
  | bindDescriptorSets commandBuffer pDescriptorSets pDynamicOffsets =>
      obtain ⟨next, hnext, hsound, hkept, hhas⟩ := postCmdBindDescriptorSets_spec hinv.sets
        (hinv.commandBuffers commandBuffer) hcovered
      exact ⟨_, by rw [step, hnext]; rfl, hinv.bind hsound hkept hhas⟩
  | bindDescriptorSets2 commandBuffer stageFlags pDescriptorSets pDynamicOffsets =>
      obtain ⟨next, hnext, hsound, hkept, hhas⟩ := postCmdBindDescriptorSets2_spec hinv.sets
        (hinv.commandBuffers commandBuffer) hcovered.1 hcovered.2
      exact ⟨_, by rw [step, hnext]; rfl, hinv.bind hsound hkept hhas⟩
  | pushDescriptorSet commandBuffer writes =>
      obtain ⟨next, hnext, hsound, hkept, hnamed⟩ := pushDescriptorSets_spec
        (hinv.commandBuffers commandBuffer) hvalid hcovered
      refine ⟨_, by rw [step, hnext]; rfl, hinv.record hsound hkept ?_⟩
      rintro data x haccessible ⟨write, hwrite, hnames⟩
      exact hnamed write hwrite data x haccessible hnames

/-- The touched maps have what the descriptors name, and nothing behind the end of an object. -/
structure State.Covers (device : Device) (s : State) : Prop where
  sets : ∀ set data x, (device.objects data).accessible = true → s.SetNames device set data x →
    Mem (s.sets set).touched data x
  setsInside : ∀ set data x, Mem (s.sets set).touched data x → x < (device.objects data).size
  commandBuffers : ∀ i data x, (device.objects data).accessible = true → s.named i data x →
    Mem (s.commandBuffers i) data x
  commandBuffersInside : ∀ i data x, Mem (s.commandBuffers i) data x →
    x < (device.objects data).size

/-- **Descriptor sets cover what they reference.**  In a run of valid calls that meet what is asked
beyond that, no call fails, the touched map of every set has the bytes of all descriptors that it
holds, and the map of every command buffer those of the sets that were bound to it. -/
theorem descriptor_sets_cover (device : Device) (labels : List Label)
    (halong : Along (step device)
      (fun s label => label.Valid device ∧ label.Covered device s) {} labels) :
    ∃ final, exec (step device) {} labels = some final ∧ final.Covers device := by
  obtain ⟨final, hexec, hinv⟩ := exec_progress
    (fun s label hinv hcond => step_inv hinv hcond.1 hcond.2) (inv_init device) halong
  refine ⟨final, hexec, ?_, ?_, hinv.named, ?_⟩
  · rintro set data x haccessible ⟨slot, hnames⟩
    exact hinv.covering set slot data x haccessible hnames
  · intro set data x
    exact (hinv.sets set).inside data x
  · intro i data x
    exact (hinv.commandBuffers i).inside data x

end

theorem sixtyFour_lt_wrap : 64 < 2 ^ 64 := by
  norm_num

/-- Objects of 64 bytes that the host writes; no binding is ever full. -/
def visible : Device where
  objects := fun _ => ⟨64, true, sixtyFour_lt_wrap⟩
  imageViews := some
  bufferViews := fun view => some ⟨view, 0, wholeSize⟩
  tensorViews := some
  place := fun _ binding element j => (binding, element + j)

/-- A write of one uniform buffer of 16 bytes. -/
def writeBuffer (set binding buffer : Nat) : WriteDescriptorSet :=
  ⟨set, binding, 0, 1, .buffer fun _ => ⟨some buffer, 0, 16⟩⟩

theorem writeBuffer_valid (set binding buffer : Nat) :
    (writeBuffer set binding buffer).Valid visible := by
  constructor
  · trivial
  · intro j _ other hother
    exact ⟨Nat.zero_le 64, show 16 ≤ 64 by decide⟩

/-- One call writes set 0 and copies it to set 1, which a command buffer binds. -/
def copyRun : List Label :=
  [.updateDescriptorSets [writeBuffer 0 0 5] [⟨0, 0, 0, 1, 3, 0, 1⟩],
    .bindDescriptorSets 7 [some 1] []]

theorem descriptor_sets_cover_copy :
    ∃ final, exec (step visible) {} copyRun = some final ∧ Mem (final.commandBuffers 7) 5 15 := by
  have halong : Along (step visible)
      (fun s label => label.Valid visible ∧ label.Covered visible s) {} copyRun := by
    refine ⟨⟨?_, ?_, ?_⟩, fun next hnext => ⟨⟨trivial, [1], rfl, ?_⟩, fun _ _ => trivial⟩⟩
    · intro write hwrite
      rw [List.mem_singleton.mp hwrite]
      exact writeBuffer_valid 0 0 5
    · intro write hwrite
      rw [List.mem_singleton.mp hwrite]
      trivial
    · intro write _ slot _ data x _ hnames
      exact hnames.elim
    · cases hnext
      intro i entry hentry
      have hnone : ([] : List (Nat × BufferInfo))[i]? = some entry := hentry
      cases hnone
  obtain ⟨final, hexec, hcovers⟩ := descriptor_sets_cover visible copyRun halong
  refine ⟨final, hexec, hcovers.commandBuffers 7 5 15 rfl ?_⟩
  cases hexec
  exact Or.inr ⟨rfl, 1, List.mem_singleton_self _, (3, 0), rfl, by decide, by decide⟩

/-- Two calls that write the bindings 0 and 1 of one set. -/
def partialRun : List Label :=
  [.updateDescriptorSets [writeBuffer 0 0 5] [], .updateDescriptorSets [writeBuffer 0 1 6] []]

/-- The second call forgets what the first one has touched. -/
theorem second_update_forgets_first :
    ¬ ∀ (device : Device) (labels : List Label),
      Along (step device) (fun _ label => label.Valid device) {} labels →
      ∃ final, exec (step device) {} labels = some final ∧ final.Covers device := by
  intro hall
  have halong : Along (step visible) (fun _ label => label.Valid visible) {} partialRun := by
    refine ⟨?_, fun _ _ => ⟨?_, fun _ _ => trivial⟩⟩
    · intro write hwrite
      rw [List.mem_singleton.mp hwrite]
      exact writeBuffer_valid 0 0 5
    · intro write hwrite
      rw [List.mem_singleton.mp hwrite]
      exact writeBuffer_valid 0 1 6
  obtain ⟨final, hexec, hcovers⟩ := hall visible partialRun halong
  cases hexec
  have hfirst := hcovers.sets 0 5 0 rfl ⟨(0, 0), rfl, by decide, by decide⟩
  obtain ⟨exposure, hnone, -⟩ := hfirst
  cases hnone

end DescriptorTouch
end Lavatube
