import Mathlib.Tactic

/-!
# Tracking metadata

A capture writes what it knows of its objects to `tracking.json`, and replay reads it back.
For every type of object there is a function that writes its members, one after another, and
one that reads them: twenty pairs that agree on keys, conversions and optional members only by
convention.  Each function is here the list of its statements.

* `Put`, `write` — the statements of a writer, and the members they leave.
* `Get`, `read` — the statements of a reader, and the object it returns.
* `Restored` — every field that was written has its value again.
* `restored_iff_fields` — what that means field by field.
* `tracking_metadata_restored_iff` — the objects of each type that are restored.
-/

namespace Lavatube
namespace TrackingMetadata

/-! ## Objects -/

/-- The types of objects in this module. -/
inductive TrackedType where
  | buffer
  | image
  | tensor
  | tensorView
  | accelerationStructure
  | dataGraphPipelineSession
  | shaderModule
  | shaderObject
  | swapchain
  | surface
  | framebuffer
  | pipeline
  | pipelineLayout
  | queue
  | fence
  | imageView
  | bufferView
  | indirectCommandsLayout
  | descriptorUpdateTemplate
deriving DecidableEq, Repr

/-- The fields with a number, of all types.  `objectOffset` is the offset of `trackedobject`, and
`offset` that of `trackedaccelerationstructure`, which hides it. -/
inductive NumField where
  | index
  | creationFrame
  | creationPacket
  | creationThread
  | creationCallId
  | destroyedFrame
  | destroyedPacket
  | destroyedThread
  | destroyedCallId
  | size
  | parentDeviceIndex
  | deviceAddress
  | captureDeviceAddress
  | aliasIndex
  | aliasType
  | backingIndex
  | objectOffset
  | reqSize
  | reqAlignment
  | memoryFlags
  | tiling
  | written
  | updates
  | flags
  | sharingMode
  | usage
  | usage2
  | format
  | tensorIndex
  | pipelineIndex
  | imageType
  | extentWidth
  | extentHeight
  | extentDepth
  | initialLayout
  | currentLayout
  | samples
  | mipLevels
  | arrayLayers
  | isSwapchainImage
  | offset
  | bufferIndex
  | imageFormat
  | imageUsage
  | imageSharingMode
  | imageExtentWidth
  | imageExtentHeight
  | imageIndex
  | queueFamily
  | queueIndex
  | queueFlags
  | deviceIndex
  | type
  | enablesDeviceAddress
  | width
  | height
  | layers
  | x
  | y
  | stages
  | indirectStride
  | pipelineLayoutIndex
  | pushConstantSpaceUsed
  | dataSize
  | stageFlags
  | stageStage
deriving DecidableEq, Repr

/-- The fields with a string. -/
inductive TextField where
  | name
  | stageName
deriving DecidableEq, Repr

/-- The fields with a vector. -/
inductive ListField where
  | dimensions
  | strides
  | layoutIndices
deriving DecidableEq, Repr

inductive Field where
  | num (field : NumField)
  | text (field : TextField)
  | list (field : ListField)
deriving DecidableEq, Repr

/-- A value of a member, and of a field; in a field `true` is the number 1. -/
inductive Value where
  | number (value : Int)
  | text (value : String)
  | flag (value : Bool)
  | list (values : List Int)
deriving DecidableEq, Repr

/-- An object of any of the types. -/
structure Tracked where
  num : NumField → Int
  text : TextField → String
  list : ListField → List Int

/-- The value of a field. -/
def Tracked.value (t : Tracked) : Field → Value
  | .num field => .number (t.num field)
  | .text field => .text (t.text field)
  | .list field => .list (t.list field)

/-- A value is assigned to a field. -/
def Tracked.assign (t : Tracked) : Field → Value → Tracked
  | .num field, .number value => { t with num := Function.update t.num field value }
  | .text field, .text value => { t with text := Function.update t.text field value }
  | .list field, .list values => { t with list := Function.update t.list field values }
  | _, _ => t

/-! ## Statements -/

/-- The members of a JSON object. -/
abbrev Json := String → Option Value

/-- `v[key] = value`, if the condition holds, for the fields that the value is made of. -/
structure Put where
  key : String
  fields : List Field
  emitted : Tracked → Bool
  value : Tracked → Value

/-- One statement of a writer. -/
def Put.apply (t : Tracked) (v : Json) (put : Put) : Json :=
  if put.emitted t then Function.update v put.key (some (put.value t)) else v

/-- A writer. -/
def write (puts : List Put) (t : Tracked) : Json :=
  puts.foldl (Put.apply t) fun _ => none

/-- `t.field = v[key]`, converted, if the object has the required member.  A conversion that
throws is `none`. -/
structure Get where
  field : Field
  key : String
  required : Option String
  convert : Option Value → Option Value

/-- The condition of a statement. -/
def Get.runs (v : Json) (get : Get) : Bool :=
  match get.required with
  | some key => (v key).isSome
  | none => true

/-- One statement of a reader. -/
def Get.apply (v : Json) (t : Tracked) (get : Get) : Option Tracked :=
  if get.runs v then (get.convert (v get.key)).map (t.assign get.field) else some t

/-- A reader; `enter_initialized` asserts that the object has an index. -/
def read (gets : List Get) (initial : Tracked) (v : Json) : Option Tracked :=
  (gets.foldlM (Get.apply v) initial).filter fun t => t.num .index ≠ 2 ^ 32 - 1

/-! ### Conversions -/

/-- `(unsigned)`. -/
def unsigned (value : Int) : Int := value % 2 ^ 32

/-- `(Json::Value::UInt64)`. -/
def uint64 (value : Int) : Int := value % 2 ^ 64

/-- The conversion to a vector element of type `int64_t`. -/
def int64 (value : Int) : Int := (value + 2 ^ 63) % 2 ^ 64 - 2 ^ 63

/-- `asUInt`; a missing member is null, which is zero. -/
def asUInt : Option Value → Option Value
  | none => some (.number 0)
  | some (.number value) => if 0 ≤ value ∧ value < 2 ^ 32 then some (.number value) else none
  | some (.flag value) => some (.number (if value then 1 else 0))
  | some (.text _) | some (.list _) => none

/-- `asInt`. -/
def asInt : Option Value → Option Value
  | none => some (.number 0)
  | some (.number value) =>
      if -2 ^ 31 ≤ value ∧ value < 2 ^ 31 then some (.number value) else none
  | some (.flag value) => some (.number (if value then 1 else 0))
  | some (.text _) | some (.list _) => none

/-- `asUInt64`. -/
def asUInt64 : Option Value → Option Value
  | none => some (.number 0)
  | some (.number value) => if 0 ≤ value ∧ value < 2 ^ 64 then some (.number value) else none
  | some (.flag value) => some (.number (if value then 1 else 0))
  | some (.text _) | some (.list _) => none

/-- `asBool`. -/
def asBool : Option Value → Option Value
  | none => some (.number 0)
  | some (.number value) => some (.number (if value = 0 then 0 else 1))
  | some (.flag value) => some (.number (if value then 1 else 0))
  | some (.text _) | some (.list _) => none

/-- `asString`. -/
def asString : Option Value → Option Value
  | none => some (.text "")
  | some (.number value) => some (.text (toString value))
  | some (.flag value) => some (.text (if value then "true" else "false"))
  | some (.text value) => some (.text value)
  | some (.list _) => none

/-- An `asInt` that is assigned to a `std::string`, which takes it for a character. -/
def asIntToString (value : Option Value) : Option Value :=
  match asInt value with
  | some (.number value) =>
      some (.text (String.singleton (Char.ofNat (value % 2 ^ 8).toNat)))
  | _ => none

/-- A conversion whose result is assigned to a field of so many bits. -/
def narrow (bits : Nat) (convert : Option Value → Option Value) (value : Option Value) :
    Option Value :=
  match convert value with
  | some (.number value) => some (.number (value % 2 ^ bits))
  | other => other

/-- `get(key, other)`. -/
def orElse (other : Int) (convert : Option Value → Option Value) : Option Value → Option Value
  | none => convert (some (.number other))
  | some value => convert (some value)

/-- The frame of destruction, with the value of old files for an object that is not destroyed. -/
def asFrame : Option Value → Option Value
  | some (.number value) =>
      if value = -1 then some (.number (2 ^ 32 - 1)) else asUInt (some (.number value))
  | value => asUInt value

/-- An element of an array. -/
def element (i : Nat) : Option Value → Option Value
  | some (.list values) => asUInt (values[i]?.map .number)
  | none => some (.number 0)
  | some _ => none

/-- `push_back` of every element. -/
def elements (convert : Option Value → Option Value) (assign : Int → Int) :
    Option Value → Option Value
  | some (.list values) =>
      if values.all fun value => (convert (some (.number value))).isSome then
        some (.list (values.map assign))
      else
        none
  | none => some (.list [])
  | some _ => none

/-- `v[key] = (cast)t->field`. -/
@[simp] def number (key : String) (field : NumField) (cast : Int → Int) : Put where
  key := key
  fields := [.num field]
  emitted _ := true
  value t := .number (cast (t.num field))

/-- `if (condition) v[key] = (cast)t->field`. -/
@[simp] def numberIf (condition : Tracked → Bool) (key : String) (field : NumField)
    (cast : Int → Int) : Put :=
  { number key field cast with emitted := condition }

/-- `if (t->field) v[key] = true`. -/
@[simp] def flagIf (key : String) (field : NumField) : Put where
  key := key
  fields := [.num field]
  emitted t := t.num field ≠ 0
  value _ := .flag true

/-- `t.field = v[key]`. -/
@[simp] def assign (field : NumField) (key : String)
    (convert : Option Value → Option Value) : Get where
  field := .num field
  key := key
  required := none
  convert := convert

/-- `if (v.isMember(key)) t.field = v[key]`. -/
@[simp] def assignIf (field : NumField) (key : String)
    (convert : Option Value → Option Value) : Get :=
  { assign field key convert with required := some key }

/-- `t.field = v[key]` inside of `if (v.isMember(member))`. -/
@[simp] def assignWith (member : String) (field : NumField) (key : String)
    (convert : Option Value → Option Value) : Get :=
  { assign field key convert with required := some member }

/-! ## Writers -/

/-- `UINT32_MAX`, and `CONTAINER_INVALID_INDEX`. -/
def noIndex : Int := 2 ^ 32 - 1

/-- `t->destroyed.frame != UINT32_MAX`. -/
def isDestroyed (t : Tracked) : Bool := t.num .destroyedFrame ≠ noIndex

/-- `t->alias_index != UINT32_MAX`. -/
def isAliased (t : Tracked) : Bool := t.num .aliasIndex ≠ noIndex

/-- `t->backing_index != UINT32_MAX`. -/
def isBacked (t : Tracked) : Bool := t.num .backingIndex ≠ noIndex

/-- `trackable_json`. -/
def trackableJson : List Put :=
  [number "frame_created" .creationFrame id,
    number "packet_created" .creationPacket id,
    number "thread_created" .creationThread id,
    number "api_created" .creationCallId id,
    numberIf isDestroyed "frame_destroyed" .destroyedFrame id,
    numberIf isDestroyed "packet_destroyed" .destroyedPacket id,
    numberIf isDestroyed "thread_destroyed" .destroyedThread id,
    numberIf isDestroyed "api_destroyed" .destroyedCallId id,
    { key := "name"
      fields := [.text .name]
      emitted t := t.text .name ≠ ""
      value t := .text (t.text .name) }]

/-- `trackedobject_json`. -/
def trackedobjectJson : List Put := trackableJson ++
  [number "size" .size uint64,
    number "parent_device_index" .parentDeviceIndex id,
    numberIf (fun t => t.num .deviceAddress ≠ 0) "device_address" .deviceAddress uint64,
    numberIf isAliased "alias_index" .aliasIndex id,
    numberIf isAliased "alias_type" .aliasType unsigned,
    numberIf isBacked "backing_memory_index" .backingIndex id,
    numberIf isBacked "memory_offset" .objectOffset uint64,
    number "req_size" .reqSize uint64,
    number "req_alignment" .reqAlignment unsigned,
    number "memory_flags" .memoryFlags unsigned,
    number "tiling" .tiling unsigned]

/-- `trackedaccelerationstructure_json`. -/
def trackedaccelerationstructureJson : List Put := trackedobjectJson ++
  [number "offset" .offset uint64,
    number "buffer_index" .bufferIndex id,
    number "flags" .flags unsigned]

/-- `trackedbuffer_json`. -/
def trackedbufferJson : List Put := trackedobjectJson ++
  [number "flags" .flags unsigned,
    number "sharingMode" .sharingMode unsigned,
    number "usage" .usage unsigned,
    number "usage2" .usage2 uint64,
    number "written" .written uint64,
    number "updates" .updates unsigned]

/-- `trackedtensor_json`. -/
def trackedtensorJson : List Put := trackedobjectJson ++
  [number "flags" .flags uint64,
    number "sharingMode" .sharingMode unsigned,
    number "format" .format unsigned,
    number "usage" .usage unsigned,
    { key := "dimensions"
      fields := [.list .dimensions]
      emitted _ := true
      value t := .list ((t.list .dimensions).map uint64) },
    { key := "strides"
      fields := [.list .strides]
      emitted t := t.list .strides ≠ []
      value t := .list ((t.list .strides).map uint64) }]

/-- `trackedtensorview_json`. -/
def trackedtensorviewJson : List Put := trackableJson ++
  [number "tensor" .tensorIndex unsigned,
    number "format" .format unsigned,
    number "flags" .flags uint64]

/-- `trackeddatagraphpipelinesession_json`. -/
def trackeddatagraphpipelinesessionJson : List Put := trackedobjectJson ++
  [number "flags" .flags uint64,
    number "pipeline_index" .pipelineIndex id]

/-- `trackedimage_json`. -/
def trackedimageJson : List Put := trackedobjectJson ++
  [number "flags" .flags unsigned,
    number "sharingMode" .sharingMode unsigned,
    number "usage" .usage unsigned,
    number "imageType" .imageType unsigned,
    number "format" .format unsigned,
    number "written" .written uint64,
    number "updates" .updates unsigned,
    { key := "extent"
      fields := [.num .extentWidth, .num .extentHeight, .num .extentDepth]
      emitted _ := true
      value t := .list [unsigned (t.num .extentWidth), unsigned (t.num .extentHeight),
        unsigned (t.num .extentDepth)] },
    number "initalLayout" .initialLayout unsigned,
    number "samples" .samples unsigned,
    number "mipLevels" .mipLevels unsigned,
    number "arrayLayers" .arrayLayers unsigned,
    flagIf "swapchain_image" .isSwapchainImage]

/-- `trackedswapchain_json`. -/
def trackedswapchainJson : List Put := trackableJson ++
  [number "imageFormat" .imageFormat unsigned,
    number "imageUsage" .imageUsage unsigned,
    number "imageSharingMode" .imageSharingMode unsigned,
    number "width" .imageExtentWidth unsigned,
    number "height" .imageExtentHeight unsigned]

/-- `trackedimageview_json`. -/
def trackedimageviewJson : List Put := trackableJson ++ [number "image" .imageIndex unsigned]

/-- `trackedbufferview_json`. -/
def trackedbufferviewJson : List Put := trackableJson ++ [number "buffer" .bufferIndex unsigned]

/-- `trackedqueue_json`. -/
def trackedqueueJson : List Put := trackableJson ++
  [number "queueFamily" .queueFamily unsigned,
    number "queueIndex" .queueIndex unsigned,
    number "queueFlags" .queueFlags unsigned,
    number "parent_device_index" .deviceIndex unsigned]

/-- `trackedfence_json`. -/
def trackedfenceJson : List Put := trackableJson ++ [number "flags" .flags unsigned]

/-- `trackedpipeline_json`. -/
def trackedpipelineJson : List Put := trackableJson ++
  [number "flags" .flags unsigned,
    number "type" .type unsigned]

/-- `trackedshadermodule_json`. -/
def trackedshadermoduleJson : List Put := trackableJson ++
  [flagIf "enables_device_address" .enablesDeviceAddress,
    number "size" .size unsigned]

/-- `trackedframebuffer_json`. -/
def trackedframebufferJson : List Put := trackableJson ++
  [number "width" .width id,
    number "height" .height id,
    number "layers" .layers id]

/-- `trackedindirectcommandslayout_json`. -/
def trackedindirectcommandslayoutJson : List Put := trackableJson ++
  [number "flags" .flags unsigned,
    number "stages" .stages unsigned,
    number "indirect_stride" .indirectStride unsigned,
    numberIf (fun t => t.num .pipelineLayoutIndex ≠ noIndex) "pipeline_layout_index"
      .pipelineLayoutIndex id]

/-- `trackedpipelinelayout_json`. -/
def trackedpipelinelayoutJson : List Put := trackableJson ++
  [number "push_constant_space_used" .pushConstantSpaceUsed id,
    { key := "layout_indices"
      fields := [.list .layoutIndices]
      emitted t := t.list .layoutIndices ≠ []
      value t := .list (t.list .layoutIndices) }]

/-- `trackeddescriptorupdatetemplate_json`. -/
def trackeddescriptorupdatetemplateJson : List Put := trackableJson ++
  [number "template_type" .type id,
    number "create_flags" .flags id,
    number "data_size" .dataSize id]

/-- `trackedsurface_json`. -/
def trackedsurfaceJson : List Put := trackableJson ++
  [number "width" .width id,
    number "height" .height id,
    number "x" .x id,
    number "y" .y id]

/-- `trackedshaderobject_json`. -/
def trackedshaderobjectJson : List Put := trackableJson ++
  [number "flags" .stageFlags id,
    number "stage" .stageStage id,
    { key := "entry_name"
      fields := [.text .stageName]
      emitted _ := true
      value t := .text (t.text .stageName) }]

/-- The writer of a type. -/
def writer : TrackedType → List Put
  | .buffer => trackedbufferJson
  | .image => trackedimageJson
  | .tensor => trackedtensorJson
  | .tensorView => trackedtensorviewJson
  | .accelerationStructure => trackedaccelerationstructureJson
  | .dataGraphPipelineSession => trackeddatagraphpipelinesessionJson
  | .shaderModule => trackedshadermoduleJson
  | .shaderObject => trackedshaderobjectJson
  | .swapchain => trackedswapchainJson
  | .surface => trackedsurfaceJson
  | .framebuffer => trackedframebufferJson
  | .pipeline => trackedpipelineJson
  | .pipelineLayout => trackedpipelinelayoutJson
  | .queue => trackedqueueJson
  | .fence => trackedfenceJson
  | .imageView => trackedimageviewJson
  | .bufferView => trackedbufferviewJson
  | .indirectCommandsLayout => trackedindirectcommandslayoutJson
  | .descriptorUpdateTemplate => trackeddescriptorupdatetemplateJson

/-- What is written of an object: the members of its writer, and its index. -/
def statements (type : TrackedType) : List Put := writer type ++ [number "index" .index id]

/-! ## Readers -/

/-- `trackable_helper`. -/
def trackableHelper : List Get :=
  [assign .index "index" asUInt,
    assign .creationFrame "frame_created" asUInt,
    assignIf .creationPacket "packet_created" asUInt,
    assignIf .creationThread "thread_created" (narrow 8 asUInt),
    assignIf .creationCallId "api_created" (narrow 16 asUInt),
    assignIf .destroyedFrame "frame_destroyed" asFrame,
    assignIf .destroyedPacket "packet_destroyed" asUInt,
    assignIf .destroyedThread "thread_destroyed" (narrow 8 asUInt),
    assignIf .destroyedCallId "api_destroyed" (narrow 16 asUInt),
    ⟨.text .name, "name", some "name", asString⟩]

/-- `alias_index` and `alias_type`, in all readers that have them. -/
def readAlias : List Get :=
  [assignIf .aliasIndex "alias_index" asUInt,
    assignWith "alias_index" .aliasType "alias_type" asUInt]

/-- The backing memory and the requirements, in all readers that have them. -/
def readBacking : List Get :=
  [assignIf .backingIndex "backing_memory_index" asUInt,
    assignWith "backing_memory_index" .objectOffset "memory_offset" asUInt64,
    assignWith "backing_memory_index" .reqSize "req_size" asUInt64,
    assignWith "backing_memory_index" .reqAlignment "req_alignment" asUInt64]

/-- `trackedfence_json`. -/
def trackedfenceOfJson : List Get := trackableHelper ++ [assign .flags "flags" asInt]

/-- `trackedpipeline_json`. -/
def trackedpipelineOfJson : List Get := trackableHelper ++
  [assign .flags "flags" asUInt,
    assign .type "type" asUInt]

/-- `trackedaccelerationstructure_json`. -/
def trackedaccelerationstructureOfJson : List Get := trackableHelper ++
  [assign .flags "flags" asUInt,
    assign .size "size" asUInt64,
    assign .offset "offset" asUInt64,
    assign .bufferIndex "buffer_index" asUInt,
    assignIf .captureDeviceAddress "device_address" asUInt64] ++
  readAlias ++
  [assignIf .memoryFlags "memory_flags" asUInt,
    assign .parentDeviceIndex "parent_device_index" asUInt]

/-- `trackedbuffer_json`. -/
def trackedbufferOfJson : List Get := trackableHelper ++
  [assign .size "size" asUInt64,
    assign .flags "flags" asUInt,
    assign .sharingMode "sharingMode" asUInt,
    assign .usage "usage" asUInt,
    assignIf .usage2 "usage2" asUInt64,
    assignIf .captureDeviceAddress "device_address" asUInt64] ++
  readAlias ++
  [assignIf .memoryFlags "memory_flags" asUInt] ++
  readBacking ++
  [assign .parentDeviceIndex "parent_device_index" asUInt]

/-- `trackedimage_json`. -/
def trackedimageOfJson : List Get := trackableHelper ++
  [assign .size "size" (orElse 0 asUInt64),
    assign .tiling "tiling" asUInt,
    assign .flags "flags" asUInt,
    assign .sharingMode "sharingMode" asUInt,
    assign .usage "usage" asUInt,
    assign .imageType "imageType" asUInt,
    assign .initialLayout "initialLayout" (orElse 0 asUInt),
    assign .currentLayout "initialLayout" (orElse 0 asUInt),
    assign .samples "samples" (orElse 0 asUInt),
    assign .mipLevels "mipLevels" (orElse 0 asUInt),
    assign .arrayLayers "arrayLayers" (orElse 0 asUInt),
    assign .format "format" (orElse (2 ^ 31 - 1) asUInt),
    assignIf .captureDeviceAddress "device_address" asUInt64,
    assignWith "extent" .extentWidth "extent" (element 0),
    assignWith "extent" .extentHeight "extent" (element 1),
    assignWith "extent" .extentDepth "extent" (element 2)] ++
  readAlias ++
  [assignIf .memoryFlags "memory_flags" asUInt] ++
  readBacking ++
  [assignIf .isSwapchainImage "swapchain_image" asBool,
    assign .parentDeviceIndex "parent_device_index" asUInt]

/-- `trackedtensor_json`. -/
def trackedtensorOfJson : List Get := trackableHelper ++
  [assign .size "size" (orElse 0 asUInt64),
    assign .flags "flags" asUInt64,
    assign .sharingMode "sharingMode" asUInt,
    assign .tiling "tiling" asUInt,
    assign .format "format" asUInt,
    assign .usage "usage" (orElse 0 asUInt64),
    assignIf .captureDeviceAddress "device_address" asUInt64,
    ⟨.list .dimensions, "dimensions", none, elements asUInt64 int64⟩,
    ⟨.list .strides, "strides", some "strides", elements asUInt64 int64⟩] ++
  readAlias ++
  [assignIf .memoryFlags "memory_flags" asUInt] ++
  readBacking ++
  [assign .parentDeviceIndex "parent_device_index" asUInt]

/-- `trackedtensorview_json`. -/
def trackedtensorviewOfJson : List Get := trackableHelper ++
  [assign .tensorIndex "tensor" asUInt,
    assign .format "format" (orElse 0 asUInt),
    assign .flags "flags" (orElse 0 asUInt64)]

/-- `trackeddatagraphpipelinesession_json`. -/
def trackeddatagraphpipelinesessionOfJson : List Get := trackableHelper ++
  [assign .size "size" (orElse 0 asUInt64),
    assign .flags "flags" asUInt64,
    assign .pipelineIndex "pipeline_index" asUInt,
    assign .tiling "tiling" (orElse 1 asUInt),
    assignIf .memoryFlags "memory_flags" asUInt,
    assign .parentDeviceIndex "parent_device_index" asUInt]

/-- `trackedswapchain_replay_json`. -/
def trackedswapchainReplayOfJson : List Get := trackableHelper ++
  [assign .imageFormat "imageFormat" asUInt,
    assign .imageUsage "imageUsage" asUInt,
    assign .imageExtentWidth "width" asUInt,
    assign .imageExtentHeight "height" asUInt,
    assign .imageSharingMode "imageSharingMode" asUInt]

/-- `trackedimageview_json`. -/
def trackedimageviewOfJson : List Get := trackableHelper ++ [assign .imageIndex "image" asUInt]

/-- `trackedbufferview_json`. -/
def trackedbufferviewOfJson : List Get := trackableHelper ++ [assign .bufferIndex "buffer" asUInt]

/-- `trackedqueue_json`. -/
def trackedqueueOfJson : List Get := trackableHelper ++
  [assign .deviceIndex "parent_device_index" asUInt,
    assignIf .queueFamily "queueFamily" asUInt,
    assignIf .queueIndex "queueIndex" asUInt,
    assignIf .queueFlags "queueFlags" asUInt]

/-- `trackedframebuffer_json`. -/
def trackedframebufferOfJson : List Get := trackableHelper

/-- `trackedshadermodule_json`: the size is assigned to the name. -/
def trackedshadermoduleOfJson : List Get := trackableHelper ++
  [⟨.text .name, "size", some "size", asIntToString⟩,
    assignIf .enablesDeviceAddress "enables_device_address" asBool]

/-- `trackedindirectcommandslayout_json`. -/
def trackedindirectcommandslayoutOfJson : List Get := trackableHelper ++
  [assign .flags "flags" asUInt,
    assign .stages "stages" asUInt,
    assign .indirectStride "indirect_stride" asUInt,
    assignIf .pipelineLayoutIndex "pipeline_layout_index" asUInt]

/-- `trackedpipelinelayout_json`. -/
def trackedpipelinelayoutOfJson : List Get := trackableHelper ++
  [assignIf .pushConstantSpaceUsed "push_constant_space_used" asUInt,
    ⟨.list .layoutIndices, "layout_indices", some "layout_indices", elements asUInt id⟩]

/-- `trackeddescriptorupdatetemplate_json`. -/
def trackeddescriptorupdatetemplateOfJson : List Get := trackableHelper ++
  [assign .type "template_type" asUInt,
    assign .flags "create_flags" asUInt,
    assign .dataSize "data_size" (orElse 0 asUInt64)]

/-- `trackedshaderobject_json`. -/
def trackedshaderobjectOfJson : List Get := trackableHelper ++
  [assign .stageFlags "flags" asUInt,
    assign .stageStage "stage" asUInt,
    ⟨.text .stageName, "entry_name", none, asString⟩]

/-- `trackedsurface_json`. -/
def trackedsurfaceOfJson : List Get := trackableHelper ++
  [assign .width "width" asUInt,
    assign .height "height" asUInt,
    assign .x "x" asInt,
    assign .y "y" asInt]

/-- The reader of a type. -/
def reader : TrackedType → List Get
  | .buffer => trackedbufferOfJson
  | .image => trackedimageOfJson
  | .tensor => trackedtensorOfJson
  | .tensorView => trackedtensorviewOfJson
  | .accelerationStructure => trackedaccelerationstructureOfJson
  | .dataGraphPipelineSession => trackeddatagraphpipelinesessionOfJson
  | .shaderModule => trackedshadermoduleOfJson
  | .shaderObject => trackedshaderobjectOfJson
  | .swapchain => trackedswapchainReplayOfJson
  | .surface => trackedsurfaceOfJson
  | .framebuffer => trackedframebufferOfJson
  | .pipeline => trackedpipelineOfJson
  | .pipelineLayout => trackedpipelinelayoutOfJson
  | .queue => trackedqueueOfJson
  | .fence => trackedfenceOfJson
  | .imageView => trackedimageviewOfJson
  | .bufferView => trackedbufferviewOfJson
  | .indirectCommandsLayout => trackedindirectcommandslayoutOfJson
  | .descriptorUpdateTemplate => trackeddescriptorupdatetemplateOfJson

/-- The largest value of an enumeration, which stands for no value. -/
def maxEnum : Int := 2 ^ 31 - 1

/-- The flags of an object that has not been read. -/
def initialFlags : TrackedType → Int
  | .dataGraphPipelineSession => 2 ^ 64 - 1
  | .buffer | .image | .tensor | .accelerationStructure | .indirectCommandsLayout => maxEnum
  | _ => 0

/-- The default member initializers; linear tiling is 1. -/
def initialNum (type : TrackedType) : NumField → Int
  | .index | .creationFrame | .creationPacket | .destroyedFrame | .destroyedPacket => noIndex
  | .creationThread | .destroyedThread => 2 ^ 8 - 1
  | .creationCallId | .destroyedCallId => 2 ^ 16 - 1
  | .parentDeviceIndex | .aliasIndex | .backingIndex => noIndex
  | .tiling => 1
  | .flags => initialFlags type
  | .usage => if type = .tensor then 0 else maxEnum
  | .format => if type = .tensorView then 0 else maxEnum
  | .sharingMode | .imageType | .initialLayout | .currentLayout | .samples | .queueFlags
  | .type | .stages | .stageFlags | .stageStage => maxEnum
  | .tensorIndex | .pipelineIndex | .bufferIndex | .imageIndex | .queueFamily | .queueIndex
  | .deviceIndex | .indirectStride | .pipelineLayoutIndex => noIndex
  | _ => 0

/-- An object that has not been read. -/
def initial (type : TrackedType) : Tracked where
  num := initialNum type
  text _ := ""
  list _ := []

/-! ## Objects that are restored -/

/-- The values of a field by its type: everything from the first number up to the second. -/
def range (type : TrackedType) : NumField → Int × Int
  | .index | .creationFrame => (0, 2 ^ 32 - 1)
  | .creationThread | .destroyedThread => (0, 2 ^ 8)
  | .creationCallId | .destroyedCallId => (0, 2 ^ 16)
  | .size | .deviceAddress | .captureDeviceAddress | .objectOffset | .reqSize | .reqAlignment
  | .usage2 | .written | .offset | .dataSize => (0, 2 ^ 64)
  | .flags =>
      if type = .tensor ∨ type = .tensorView ∨ type = .dataGraphPipelineSession then (0, 2 ^ 64)
      else (0, 2 ^ 32)
  | .usage => if type = .tensor then (0, 2 ^ 64) else (0, 2 ^ 32)
  | .aliasType | .tiling | .sharingMode | .format | .imageType | .initialLayout | .currentLayout
  | .samples | .imageFormat | .imageSharingMode | .type | .stageStage => (0, 2 ^ 31)
  | .isSwapchainImage | .enablesDeviceAddress => (0, 2)
  | .x | .y => (-2 ^ 31, 2 ^ 31)
  | _ => (0, 2 ^ 32)

/-- The elements of a vector by its type. -/
def listRange : ListField → Int × Int
  | .dimensions | .strides => (-2 ^ 63, 2 ^ 63)
  | .layoutIndices => (0, 2 ^ 32)

/-- An object that has been created, with names without a null character. -/
structure Valid (type : TrackedType) (t : Tracked) : Prop where
  num : ∀ field, (range type field).1 ≤ t.num field ∧ t.num field < (range type field).2
  text : ∀ field, Char.ofNat 0 ∉ (t.text field).toList
  list : ∀ field, ∀ value ∈ t.list field,
    (listRange field).1 ≤ value ∧ value < (listRange field).2

/-- The field of the object that is read: the device address is the captured one. -/
def target : Field → Field
  | .num .deviceAddress => .num .captureDeviceAddress
  | field => field

/-- The object that is read has every field that the writer has emitted. -/
def Restored (type : TrackedType) (t : Tracked) : Prop :=
  ∃ t', read (reader type) (initial type) (write (statements type) t) = some t' ∧
    ∀ put ∈ statements type, put.emitted t = true →
      ∀ field ∈ put.fields, t'.value (target field) = t.value field

/-! ### Field by field -/

/-- The value can be assigned to the field. -/
def Value.Fits : Field → Value → Bool
  | .num _, .number _ | .text _, .text _ | .list _, .list _ => true
  | _, _ => false

/-- What a statement leaves in its field. -/
def Get.outcome (v : Json) (get : Get) (value : Value) : Value :=
  match get.convert (v get.key) with
  | some new => if new.Fits get.field then new else value
  | none => value

/-- What a reader leaves in a field. -/
def fieldAfter (v : Json) (gets : List Get) (field : Field) (value : Value) : Value :=
  gets.foldl (fun value get =>
    if get.field = field ∧ get.runs v = true then get.outcome v value else value) value

/-- The conversion of a statement does not throw. -/
def Get.Converts (v : Json) (get : Get) : Prop :=
  get.runs v = true → (get.convert (v get.key)).isSome = true

/-- What the statements leave in a member. -/
def member (puts : List Put) (t : Tracked) (key : String) : Option Value :=
  puts.foldl (fun value put =>
    if put.key = key ∧ put.emitted t = true then some (put.value t) else value) none

section

variable {type : TrackedType} {t t' : Tracked} {v v' : Json} {field other : Field} {value : Value}
variable {gets : List Get} {puts : List Put}

theorem value_assign : (t.assign other value).value field =
    if other = field ∧ value.Fits other = true then value else t.value field := by
  cases other <;> cases value <;> cases field <;>
    simp [Tracked.assign, Tracked.value, Value.Fits, Function.update_apply, eq_comm,
      apply_ite Value.number, apply_ite Value.text, apply_ite Value.list]

theorem get_value {get : Get} (hget : get.apply v t = some t') : t'.value field =
    if get.field = field ∧ get.runs v = true then get.outcome v (t.value field)
    else t.value field := by
  unfold Get.apply at hget
  by_cases hruns : get.runs v = true
  · rw [if_pos hruns] at hget
    obtain ⟨new, hnew, rfl⟩ := Option.map_eq_some_iff.mp hget
    rw [value_assign, Get.outcome, hnew]
    by_cases hfield : get.field = field
    · subst hfield
      simp [hruns]
    · simp [hfield]
  · rw [if_neg hruns] at hget
    cases hget
    simp [hruns]

/-- **What a reader leaves in a field** depends on the statements for this field only. -/
theorem foldlM_value (hread : gets.foldlM (Get.apply v) t = some t') :
    t'.value field = fieldAfter v gets field (t.value field) := by
  induction gets generalizing t with
  | nil =>
      cases hread
      rfl
  | cons get gets ih =>
      rw [List.foldlM_cons, Option.bind_eq_bind, Option.bind_eq_some_iff] at hread
      obtain ⟨middle, hget, hrest⟩ := hread
      rw [ih hrest, get_value hget]
      rfl

theorem foldlM_isSome_iff : (gets.foldlM (Get.apply v) t).isSome = true ↔
    ∀ get ∈ gets, get.Converts v := by
  induction gets generalizing t with
  | nil => simp
  | cons get gets ih =>
      rw [List.foldlM_cons, List.forall_mem_cons, Get.Converts]
      cases hget : get.apply v t with
      | none =>
          have hruns : get.runs v = true := by
            by_contra hruns
            simp [Get.apply, hruns] at hget
          have hnone : get.convert (v get.key) = none := by simpa [Get.apply, hruns] using hget
          simp [hruns, hnone]
      | some middle =>
          have hconverts : get.runs v = true → (get.convert (v get.key)).isSome = true := by
            intro hruns
            rw [Get.apply, if_pos hruns] at hget
            obtain ⟨new, hnew, -⟩ := Option.map_eq_some_iff.mp hget
            rw [hnew]
            rfl
          rw [Option.bind_eq_bind, Option.bind_some, ih]
          exact (and_iff_right hconverts).symm

/-- **What a writer leaves in a member.** -/
theorem write_apply (key : String) : write puts t key = member puts t key := by
  have hfold : ∀ (start : Json), puts.foldl (Put.apply t) start key =
      puts.foldl (fun value put =>
        if put.key = key ∧ put.emitted t = true then some (put.value t) else value)
        (start key) := by
    induction puts with
    | nil => exact fun _ => rfl
    | cons put puts ih =>
        intro start
        rw [List.foldl_cons, List.foldl_cons, ih]
        congr 1
        unfold Put.apply
        by_cases hemitted : put.emitted t = true
        · by_cases hkey : put.key = key
          · subst hkey
            simp [hemitted]
          · simp [hemitted, hkey, Function.update_of_ne (Ne.symm hkey)]
        · simp [hemitted]
  exact hfold _

/-- **An object is restored** if no conversion throws and every field that was emitted gets its
value from the statements for this field. -/
theorem restored_iff_fields : Restored type t ↔
    (∀ get ∈ reader type, get.Converts (write (statements type) t)) ∧
    fieldAfter (write (statements type) t) (reader type) (.num .index)
      ((initial type).value (.num .index)) ≠ .number (2 ^ 32 - 1) ∧
    ∀ put ∈ statements type, put.emitted t = true → ∀ field ∈ put.fields,
      fieldAfter (write (statements type) t) (reader type) (target field)
        ((initial type).value (target field)) = t.value field := by
  rw [← foldlM_isSome_iff (t := initial type), Option.isSome_iff_exists]
  unfold Restored read
  simp only [Option.filter_eq_some_iff, decide_eq_true_eq]
  constructor
  · rintro ⟨t', ⟨hread, hindex⟩, hfields⟩
    refine ⟨⟨t', hread⟩, ?_, fun put hput hemitted field hfield => ?_⟩
    · rw [← foldlM_value hread]
      simpa [Tracked.value] using hindex
    · rw [← foldlM_value hread]
      exact hfields put hput hemitted field hfield
  · rintro ⟨⟨t', hread⟩, hindex, hfields⟩
    refine ⟨t', ⟨hread, ?_⟩, fun put hput hemitted field hfield => ?_⟩
    · rw [← foldlM_value hread] at hindex
      simpa [Tracked.value] using hindex
    · rw [foldlM_value hread]
      exact hfields put hput hemitted field hfield

/-! ### Members -/

theorem member_append (puts more : List Put) (key : String) :
    member (puts ++ more) t key = (member more t key).or (member puts t key) := by
  unfold member
  rw [List.foldl_append]
  generalize puts.foldl _ none = start
  induction more using List.reverseRecOn with
  | nil => rfl
  | append_singleton more put ih =>
      rw [List.foldl_append, List.foldl_append]
      simp only [List.foldl_cons, List.foldl_nil]
      split
      · rfl
      · exact ih

@[simp] theorem member_cons (put : Put) (key : String) : member (put :: puts) t key =
    (member puts t key).or
      (if put.key = key ∧ put.emitted t = true then some (put.value t) else none) :=
  member_append [put] puts key

@[simp] theorem member_nil (key : String) : member [] t key = none :=
  rfl

theorem member_of_not_mem {key : String} (hkey : key ∉ puts.map Put.key) :
    member puts t key = none := by
  induction puts with
  | nil => rfl
  | cons put puts ih =>
      rw [List.map_cons, List.mem_cons, not_or] at hkey
      rw [member_cons, ih hkey.2, if_neg fun hput => hkey.1 hput.1.symm]
      rfl

@[simp] theorem fieldAfter_cons (get : Get) : fieldAfter v (get :: gets) field value =
    fieldAfter v gets field
      (if get.field = field ∧ get.runs v = true then get.outcome v value else value) :=
  rfl

@[simp] theorem fieldAfter_nil : fieldAfter v [] field value = value :=
  rfl

theorem fieldAfter_append (more : List Get) : fieldAfter v (gets ++ more) field value =
    fieldAfter v more field (fieldAfter v gets field value) :=
  List.foldl_append

theorem fieldAfter_of_not_mem (hfield : field ∉ gets.map Get.field) :
    fieldAfter v gets field value = value := by
  induction gets with
  | nil => rfl
  | cons get gets ih =>
      rw [List.map_cons, List.mem_cons, not_or] at hfield
      rw [fieldAfter_cons, if_neg fun hget => hfield.1 hget.1.symm, ih hfield.2]

/-- The statement finds the same in both. -/
def Get.Agree (v v' : Json) (get : Get) : Prop :=
  v get.key = v' get.key ∧ ∀ key ∈ get.required, v key = v' key

theorem runs_congr {get : Get} (hagree : get.Agree v v') : get.runs v = get.runs v' := by
  unfold Get.runs
  cases hrequired : get.required with
  | none => rfl
  | some key =>
      show (v key).isSome = (v' key).isSome
      rw [hagree.2 key hrequired]

theorem converts_congr {get : Get} (hagree : get.Agree v v') :
    get.Converts v ↔ get.Converts v' := by
  unfold Get.Converts
  rw [runs_congr hagree, hagree.1]

theorem fieldAfter_congr (hagree : ∀ get ∈ gets, get.Agree v v') :
    fieldAfter v gets field value = fieldAfter v' gets field value := by
  induction gets generalizing value with
  | nil => rfl
  | cons get gets ih =>
      obtain ⟨hget, hgets⟩ := List.forall_mem_cons.mp hagree
      rw [fieldAfter_cons, fieldAfter_cons, ih hgets, runs_congr hget]
      unfold Get.outcome
      rw [hget.1]


/-! ### Values that are kept -/

attribute [local simp] range initialNum

theorem asUInt_num (hvalid : Valid type t) (num : NumField)
    (hrange : (range type num).1 = 0 ∧ (range type num).2 ≤ 2 ^ 32) :
    asUInt (some (.number (t.num num))) = some (.number (t.num num)) := by
  have hnum := hvalid.num num
  rw [asUInt, if_pos (by omega)]

theorem asInt_num (hvalid : Valid type t) (num : NumField)
    (hrange : -2 ^ 31 ≤ (range type num).1 ∧ (range type num).2 ≤ 2 ^ 31) :
    asInt (some (.number (t.num num))) = some (.number (t.num num)) := by
  have hnum := hvalid.num num
  rw [asInt, if_pos (by omega)]

theorem asUInt64_num (hvalid : Valid type t) (num : NumField)
    (hrange : (range type num).1 = 0 ∧ (range type num).2 ≤ 2 ^ 64) :
    asUInt64 (some (.number (t.num num))) = some (.number (t.num num)) := by
  have hnum := hvalid.num num
  rw [asUInt64, if_pos (by omega)]

theorem unsigned_num (hvalid : Valid type t) (num : NumField)
    (hrange : (range type num).1 = 0 ∧ (range type num).2 ≤ 2 ^ 32) :
    unsigned (t.num num) = t.num num := by
  have hnum := hvalid.num num
  rw [unsigned, Int.emod_eq_of_lt (by omega) (by omega)]

theorem uint64_num (hvalid : Valid type t) (num : NumField)
    (hrange : (range type num).1 = 0 ∧ (range type num).2 ≤ 2 ^ 64) :
    uint64 (t.num num) = t.num num := by
  have hnum := hvalid.num num
  rw [uint64, Int.emod_eq_of_lt (by omega) (by omega)]

theorem narrow_num (hvalid : Valid type t) (num : NumField) {bits : Nat}
    (hrange : (range type num).1 = 0 ∧ (range type num).2 ≤ 2 ^ bits) (hbits : bits ≤ 32) :
    narrow bits asUInt (some (.number (t.num num))) = some (.number (t.num num)) := by
  have hnum := hvalid.num num
  have hpow : (2 : Int) ^ bits ≤ 2 ^ 32 := by gcongr; norm_num
  rw [narrow, asUInt_num hvalid num ⟨hrange.1, by omega⟩]
  simp only
  rw [Int.emod_eq_of_lt (by omega) (by omega)]

theorem asFrame_num (hvalid : Valid type t) :
    asFrame (some (.number (t.num .destroyedFrame))) = some (.number (t.num .destroyedFrame)) := by
  have hnum := hvalid.num .destroyedFrame
  simp only [range] at hnum
  rw [asFrame, if_neg (by omega), asUInt_num hvalid _ (by simp)]

/-! ### Members of every object -/

/-- The members that every object has. -/
def trackableStatements : List Put := trackableJson ++ [number "index" .index id]

/-- **The members that every object has** are restored, if nothing else is written under their
keys. -/
theorem trackable_restored (hvalid : Valid type t)
    (hmembers : ∀ key ∈ trackableStatements.map Put.key, v key = member trackableStatements t key) :
    (∀ get ∈ trackableHelper, get.Converts v) ∧
    ∀ put ∈ trackableStatements, put.emitted t = true → ∀ field ∈ put.fields,
      fieldAfter v trackableHelper field ((initial type).value field) = t.value field := by
  simp [trackableStatements, trackableJson] at hmembers
  have hnum : asUInt (some (.number (t.num .index))) = some (.number (t.num .index)) ∧
      asUInt (some (.number (t.num .creationFrame))) = some (.number (t.num .creationFrame)) ∧
      asUInt (some (.number (t.num .creationPacket))) =
        some (.number (t.num .creationPacket)) ∧
      asUInt (some (.number (t.num .destroyedPacket))) =
        some (.number (t.num .destroyedPacket)) := by
    simp [asUInt_num hvalid]
  have hnarrow : narrow 8 asUInt (some (.number (t.num .creationThread))) =
        some (.number (t.num .creationThread)) ∧
      narrow 16 asUInt (some (.number (t.num .creationCallId))) =
        some (.number (t.num .creationCallId)) ∧
      narrow 8 asUInt (some (.number (t.num .destroyedThread))) =
        some (.number (t.num .destroyedThread)) ∧
      narrow 16 asUInt (some (.number (t.num .destroyedCallId))) =
        some (.number (t.num .destroyedCallId)) := by
    simp [narrow_num hvalid]
  have hframe := asFrame_num hvalid
  -- an object may be destroyed or not, and have a name or not
  by_cases hdestroyed : isDestroyed t = true <;> by_cases hempty : t.text .name = "" <;>
    simp [trackableHelper, trackableStatements, trackableJson, Get.Converts, Get.runs, Get.outcome,
      Tracked.value, Value.Fits, asString, hmembers, hnum, hnarrow, hframe, hdestroyed,
      hempty]

theorem trackableStatements_field {put : Put} (hput : put ∈ trackableStatements)
    (hfield : field ∈ put.fields) : target field = field ∧
      field ∈ trackableHelper.map Get.field := by
  have hall : ∀ put ∈ trackableStatements, ∀ field ∈ put.fields,
      target field = field ∧ field ∈ trackableHelper.map Get.field := by
    simp [trackableStatements, trackableJson, trackableHelper, target]
  exact hall put hput field hfield

/-- The statements have no keys with the members that every object has. -/
structure Separate (puts : List Put) (gets : List Get) : Prop where
  keys : ∀ key ∈ trackableStatements.map Put.key, key ∉ puts.map Put.key
  members : ∀ get ∈ gets, get.key ∉ trackableStatements.map Put.key ∧
    ∀ key ∈ get.required, key ∉ trackableStatements.map Put.key
  index : .num .index ∉ gets.map Get.field
  targets : ∀ put ∈ puts, ∀ field ∈ put.fields,
    target field ∉ trackableHelper.map Get.field

/-- **An object is restored** if its own members are, and reading them leaves the members that
every object has as they are. -/
theorem restored_iff_parts (hvalid : Valid type t) (hwriter : writer type = trackableJson ++ puts)
    (hreader : reader type = trackableHelper ++ gets) (hseparate : Separate puts gets) :
    Restored type t ↔ (∀ get ∈ gets, get.Converts (member puts t)) ∧
      (∀ put ∈ trackableStatements, put.emitted t = true → ∀ field ∈ put.fields,
        fieldAfter (member puts t) gets field (t.value field) = t.value field) ∧
      ∀ put ∈ puts, put.emitted t = true → ∀ field ∈ put.fields,
        fieldAfter (member puts t) gets (target field) ((initial type).value (target field)) =
          t.value field := by
  have hstatements : statements type = trackableJson ++ puts ++ [number "index" .index id] := by
    rw [statements, hwriter]
  have hmembers : ∀ key ∈ trackableStatements.map Put.key,
      write (statements type) t key = member trackableStatements t key := by
    intro key hkey
    rw [write_apply, hstatements, trackableStatements, member_append, member_append,
      member_append, member_of_not_mem (hseparate.keys key hkey), Option.none_or]
  have hrest : ∀ key, key ∉ trackableStatements.map Put.key →
      write (statements type) t key = member puts t key := by
    intro key hkey
    rw [trackableStatements, List.map_append, List.mem_append, not_or] at hkey
    rw [write_apply, hstatements, member_append, member_append, member_of_not_mem hkey.1,
      member_of_not_mem hkey.2, Option.none_or, Option.or_none]
  have hagree : ∀ get ∈ gets, get.Agree (write (statements type) t) (member puts t) :=
    fun get hget => ⟨hrest _ (hseparate.members get hget).1,
      fun key hkey => hrest _ ((hseparate.members get hget).2 key hkey)⟩
  obtain ⟨hconverts, hfields⟩ := trackable_restored hvalid hmembers
  have hbase : ∀ put ∈ trackableStatements, put.emitted t = true → ∀ field ∈ put.fields,
      fieldAfter (write (statements type) t) (reader type) (target field)
          ((initial type).value (target field)) =
        fieldAfter (member puts t) gets field (t.value field) := by
    intro put hput hemitted field hfield
    rw [(trackableStatements_field hput hfield).1, hreader, fieldAfter_append,
      hfields put hput hemitted field hfield, fieldAfter_congr hagree]
  have hindex : fieldAfter (write (statements type) t) (reader type) (.num .index)
      ((initial type).value (.num .index)) = .number (t.num .index) := by
    have hnumber := hbase (number "index" .index id) (by simp [trackableStatements]) rfl
      (.num .index) (by simp)
    rw [fieldAfter_of_not_mem hseparate.index] at hnumber
    exact hnumber
  have hown : ∀ put ∈ puts, ∀ field ∈ put.fields,
      fieldAfter (write (statements type) t) (reader type) (target field)
          ((initial type).value (target field)) =
        fieldAfter (member puts t) gets (target field) ((initial type).value (target field)) := by
    intro put hput field hfield
    rw [hreader, fieldAfter_append, fieldAfter_congr hagree,
      fieldAfter_of_not_mem (hseparate.targets put hput field hfield)]
  have hlt := (hvalid.num .index).2
  simp only [range] at hlt
  rw [restored_iff_fields, hindex]
  constructor
  · rintro ⟨hall, -, hputs⟩
    refine ⟨fun get hget => ?_, fun put hput hemitted field hfield => ?_,
      fun put hput hemitted field hfield => ?_⟩
    · rw [← converts_congr (hagree get hget)]
      exact hall get (hreader ▸ List.mem_append_right _ hget)
    · rw [← hbase put hput hemitted field hfield]
      refine hputs put ?_ hemitted field hfield
      rw [trackableStatements, List.mem_append] at hput
      rw [hstatements, List.mem_append, List.mem_append]
      exact hput.imp_left .inl
    · rw [← hown put hput field hfield]
      exact hputs put (by simp [hstatements, hput]) hemitted field hfield
  · rintro ⟨hall, htrackable, hputs⟩
    refine ⟨fun get hget => ?_, ?_, fun put hput hemitted field hfield => ?_⟩
    · rw [hreader, List.mem_append] at hget
      rcases hget with hget | hget
      · exact hconverts get hget
      · rw [converts_congr (hagree get hget)]
        exact hall get hget
    · simp only [ne_eq, Value.number.injEq]
      omega
    · rw [hstatements, List.mem_append, List.mem_append, or_right_comm, ← List.mem_append] at hput
      rcases hput with hput | hput
      · rw [hbase put hput hemitted field hfield]
        exact htrackable put hput hemitted field hfield
      · rw [hown put hput field hfield]
        exact hputs put hput hemitted field hfield

/-- The same, where the members that every object has are not read again. -/
theorem restored_iff_rest (hvalid : Valid type t) (hwriter : writer type = trackableJson ++ puts)
    (hreader : reader type = trackableHelper ++ gets) (hseparate : Separate puts gets)
    (hfields : ∀ field ∈ trackableHelper.map Get.field, field ∉ gets.map Get.field) :
    Restored type t ↔ (∀ get ∈ gets, get.Converts (member puts t)) ∧
      ∀ put ∈ puts, put.emitted t = true → ∀ field ∈ put.fields,
        fieldAfter (member puts t) gets (target field) ((initial type).value (target field)) =
          t.value field := by
  have htrackable : ∀ put ∈ trackableStatements, put.emitted t = true → ∀ field ∈ put.fields,
      fieldAfter (member puts t) gets field (t.value field) = t.value field :=
    fun put hput _ field hfield =>
      fieldAfter_of_not_mem (hfields field (trackableStatements_field hput hfield).2)
  rw [restored_iff_parts hvalid hwriter hreader hseparate]
  exact and_congr_right fun _ => and_iff_right htrackable

theorem member_of_mem (hkeys : (puts.map Put.key).Nodup) {put : Put} (hput : put ∈ puts) :
    member puts t put.key = if put.emitted t = true then some (put.value t) else none := by
  obtain ⟨before, rest, rfl⟩ := List.append_of_mem hput
  rw [List.map_append, List.map_cons, List.nodup_middle, ← List.map_append, List.nodup_cons,
    List.map_append, List.mem_append, not_or] at hkeys
  rw [member_append, member_cons, member_of_not_mem hkeys.1.1, member_of_not_mem hkeys.1.2]
  simp

theorem fieldAfter_of_mem (hfields : (gets.map Get.field).Nodup) {get : Get} (hget : get ∈ gets) :
    fieldAfter v gets get.field value =
      if get.runs v = true then get.outcome v value else value := by
  obtain ⟨before, rest, rfl⟩ := List.append_of_mem hget
  rw [List.map_append, List.map_cons, List.nodup_middle, ← List.map_append, List.nodup_cons,
    List.map_append, List.mem_append, not_or] at hfields
  rw [fieldAfter_append, fieldAfter_cons, fieldAfter_of_not_mem hfields.1.1,
    fieldAfter_of_not_mem hfields.1.2]
  simp

/-- **The members and the fields one by one**, where no two statements have the same. -/
theorem restored_iff_tables (hvalid : Valid type t)
    (hwriter : writer type = trackableJson ++ puts)
    (hreader : reader type = trackableHelper ++ gets) (hseparate : Separate puts gets)
    (hown : ∀ field ∈ trackableHelper.map Get.field, field ∉ gets.map Get.field)
    (hkeys : (puts.map Put.key).Nodup) (hfields : (gets.map Get.field).Nodup) :
    ∃ (v : Json) (after : Field → Value),
      (∀ put ∈ puts, v put.key = if put.emitted t = true then some (put.value t) else none) ∧
      (∀ key, key ∉ puts.map Put.key → v key = none) ∧
      (∀ get ∈ gets, after get.field =
        if get.runs v = true then get.outcome v ((initial type).value get.field)
        else (initial type).value get.field) ∧
      (∀ field, field ∉ gets.map Get.field → after field = (initial type).value field) ∧
      (Restored type t ↔ (∀ get ∈ gets, get.Converts v) ∧
        ∀ put ∈ puts, put.emitted t = true → ∀ field ∈ put.fields,
          after (target field) = t.value field) :=
  ⟨member puts t, fun field => fieldAfter (member puts t) gets field ((initial type).value field),
    fun _ => member_of_mem hkeys, fun _ => member_of_not_mem, fun _ => fieldAfter_of_mem hfields,
    fun _ => fieldAfter_of_not_mem, restored_iff_rest hvalid hwriter hreader hseparate hown⟩

theorem asUInt_zero : asUInt (some (.number 0)) = some (.number 0) :=
  rfl

theorem asUInt64_unsigned (number : Int) :
    asUInt64 (some (.number (unsigned number))) = some (.number (unsigned number)) := by
  rw [asUInt64, if_pos (by unfold unsigned; omega)]

theorem unsigned_eq_self_iff {number : Int} (hnonneg : 0 ≤ number) :
    unsigned number = number ↔ number < 2 ^ 32 := by
  unfold unsigned
  omega

theorem int64_uint64 {number : Int} (hrange : -2 ^ 63 ≤ number ∧ number < 2 ^ 63) :
    int64 (uint64 number) = number := by
  unfold int64 uint64
  omega

theorem elements_int64 {numbers : List Int}
    (hrange : ∀ number ∈ numbers, -2 ^ 63 ≤ number ∧ number < 2 ^ 63) :
    elements asUInt64 int64 (some (.list (numbers.map uint64))) = some (.list numbers) := by
  have hconvert : ∀ number : Int,
      asUInt64 (some (.number (uint64 number))) = some (.number (uint64 number)) := by
    intro number
    rw [asUInt64, if_pos (by unfold uint64; omega)]
  have hback : (numbers.map uint64).map int64 = numbers := by
    rw [List.map_map]
    exact (List.map_congr_left fun number hnumber =>
      int64_uint64 (hrange number hnumber)).trans (List.map_id _)
  rw [elements, if_pos (by simp [hconvert]), hback]

theorem elements_uint32 {numbers : List Int}
    (hrange : ∀ number ∈ numbers, 0 ≤ number ∧ number < 2 ^ 32) :
    elements asUInt id (some (.list numbers)) = some (.list numbers) := by
  have hconvert : ∀ number ∈ numbers, asUInt (some (.number number)) = some (.number number) := by
    intro number hnumber
    rw [asUInt, if_pos (hrange number hnumber)]
  rw [elements, if_pos, List.map_id]
  exact List.all_eq_true.mpr fun number hnumber => by rw [hconvert number hnumber]; rfl

/-! ### Memory objects -/

/-- The memory requirements are read with the backing memory only, and the alignment is written
with 32 bits. -/
def RequirementsKept (t : Tracked) : Prop :=
  t.num .reqAlignment < 2 ^ 32 ∧
    (isBacked t = false → t.num .reqSize = 0 ∧ t.num .reqAlignment = 0)

theorem requirementsKept_iff (hvalid : Valid type t) : RequirementsKept t ↔
    (isBacked t = false → 0 = t.num .reqSize) ∧
    (if isBacked t = true then Value.number (unsigned (t.num .reqAlignment)) else .number 0) =
      .number (t.num .reqAlignment) := by
  have hnum := hvalid.num .reqAlignment
  simp only [range] at hnum
  unfold RequirementsKept
  cases isBacked t with
  | true => simp [unsigned_eq_self_iff hnum.1]
  | false =>
      simp only [true_implies, Bool.false_eq_true, if_false, Value.number.injEq]
      omega

/-- The tiling of a buffer and its two counters are not read back. -/
theorem buffer_restored_iff (hvalid : Valid .buffer t) : Restored .buffer t ↔
    RequirementsKept t ∧ t.num .tiling = 1 ∧ t.num .written = 0 ∧ t.num .updates = 0 := by
  obtain ⟨v, after, hmember, -, hafter, hkept, hrestored⟩ :=
    restored_iff_tables hvalid (List.append_assoc _ _ _)
      (by simp only [reader, trackedbufferOfJson, List.append_assoc]; rfl)
      ⟨by decide, by decide, by decide, by decide⟩ (by decide) (by decide) (by decide)
  -- written, but not read: they keep what a new object has
  have htiling := hkept (.num .tiling) (by decide)
  have hwritten := hkept (.num .written) (by decide)
  have hupdates := hkept (.num .updates) (by decide)
  simp [unsigned_num hvalid, uint64_num hvalid] at hmember
  simp [Get.runs, Get.outcome, Value.Fits, Tracked.value, readAlias, readBacking, hmember,
    asUInt64_unsigned, initial, asUInt_num hvalid, asUInt64_num hvalid]
    at hafter
  rw [hrestored, requirementsKept_iff hvalid]
  clear hrestored hkept
  simp +contextual [Get.Converts, Get.runs, Tracked.value, target, readAlias, readBacking, hmember,
    hafter, htiling, hwritten, hupdates, initial, asUInt_num hvalid, asUInt64_num hvalid,
    asUInt64_unsigned]
  grind

theorem image_restored_iff (hvalid : Valid .image t) : Restored .image t ↔
    RequirementsKept t ∧ t.num .initialLayout = 0 ∧ t.num .written = 0 ∧ t.num .updates = 0 := by
  obtain ⟨v, after, hmember, hmissing, hafter, hkept, hrestored⟩ :=
    restored_iff_tables hvalid (List.append_assoc _ _ _)
      (by simp only [reader, trackedimageOfJson, List.append_assoc]; rfl)
      ⟨by decide, by decide, by decide, by decide⟩ (by decide) (by decide) (by decide)
  -- the layout is written under another key, with a slip in it, than the one that is read
  have hlayout := hmissing "initialLayout" (by decide)
  have hwritten := hkept (.num .written) (by decide)
  have hupdates := hkept (.num .updates) (by decide)
  have hswapchain := hvalid.num .isSwapchainImage
  simp only [range] at hswapchain
  simp [unsigned_num hvalid, uint64_num hvalid] at hmember
  simp [Get.runs, Get.outcome, Value.Fits, Tracked.value, orElse, readAlias, readBacking, hmember,
    hlayout, element, asBool, asUInt64_unsigned, asUInt_zero, initial, asUInt_num hvalid,
    asUInt64_num hvalid] at hafter
  rw [hrestored, requirementsKept_iff hvalid]
  clear hrestored hkept
  simp +contextual [Get.Converts, Get.runs, Tracked.value, target, orElse, readAlias, readBacking,
    hmember, hlayout, hafter, element, asBool, hwritten, hupdates, initial, asUInt_num hvalid,
    asUInt64_num hvalid, asUInt64_unsigned, asUInt_zero]
  grind

theorem tensor_restored_iff (hvalid : Valid .tensor t) : Restored .tensor t ↔
    RequirementsKept t ∧ t.num .usage < 2 ^ 32 := by
  obtain ⟨v, after, hmember, -, hafter, hkept, hrestored⟩ :=
    restored_iff_tables hvalid (List.append_assoc _ _ _)
      (by simp only [reader, trackedtensorOfJson, List.append_assoc]; rfl)
      ⟨by decide, by decide, by decide, by decide⟩ (by decide) (by decide) (by decide)
  have husage := hvalid.num .usage
  simp only [range] at husage
  have hdimensions := elements_int64 (hvalid.list .dimensions)
  have hstrides := elements_int64 (hvalid.list .strides)
  simp [unsigned_num hvalid, uint64_num hvalid] at hmember
  simp [Get.runs, Get.outcome, Value.Fits, Tracked.value, orElse, readAlias, readBacking, hmember,
    hdimensions, asUInt64_unsigned, initial, asUInt_num hvalid, asUInt64_num hvalid] at hafter
  rw [hrestored, requirementsKept_iff hvalid]
  simp +contextual [Get.Converts, Get.runs, Tracked.value, target, orElse, readAlias, readBacking,
    hmember, hafter, hdimensions, hstrides, asUInt_num hvalid, asUInt64_num hvalid,
    asUInt64_unsigned]
  rw [unsigned_eq_self_iff husage.1]
  grind

theorem accelerationStructure_restored_iff (hvalid : Valid .accelerationStructure t) :
    Restored .accelerationStructure t ↔ isBacked t = false ∧ t.num .reqSize = 0 ∧
      t.num .reqAlignment = 0 ∧ t.num .tiling = 1 := by
  obtain ⟨v, after, hmember, -, hafter, hkept, hrestored⟩ :=
    restored_iff_tables hvalid (List.append_assoc _ _ _)
      (by simp only [reader, trackedaccelerationstructureOfJson, List.append_assoc]; rfl)
      ⟨by decide, by decide, by decide, by decide⟩ (by decide) (by decide) (by decide)
  -- the backing is written, but not read
  have hbacking := hkept (.num .backingIndex) (by decide)
  have hoffset := hkept (.num .objectOffset) (by decide)
  have hsize := hkept (.num .reqSize) (by decide)
  have halignment := hkept (.num .reqAlignment) (by decide)
  have htiling := hkept (.num .tiling) (by decide)
  have hbacked : isBacked t = true ↔ t.num .backingIndex ≠ noIndex := by simp [isBacked]
  simp [unsigned_num hvalid, uint64_num hvalid] at hmember
  simp [Get.runs, Get.outcome, Value.Fits, Tracked.value, readAlias, hmember, initial,
    asUInt_num hvalid, asUInt64_num hvalid] at hafter
  rw [hrestored]
  clear hrestored hkept
  simp +contextual [Get.Converts, Get.runs, Tracked.value, target, readAlias, hmember, hafter,
    hbacking, hoffset, hsize, halignment, htiling, initial, asUInt_num hvalid, asUInt64_num hvalid]
  grind

theorem dataGraphPipelineSession_restored_iff (hvalid : Valid .dataGraphPipelineSession t) :
    Restored .dataGraphPipelineSession t ↔ t.num .deviceAddress = 0 ∧ isAliased t = false ∧
      isBacked t = false ∧ t.num .reqSize = 0 ∧ t.num .reqAlignment = 0 := by
  obtain ⟨v, after, hmember, -, hafter, hkept, hrestored⟩ :=
    restored_iff_tables hvalid (List.append_assoc _ _ _)
      rfl ⟨by decide, by decide, by decide, by decide⟩ (by decide) (by decide) (by decide)
  -- the address, the alias and the backing are written, but not read
  have haddress := hkept (.num .captureDeviceAddress) (by decide)
  have halias := hkept (.num .aliasIndex) (by decide)
  have htype := hkept (.num .aliasType) (by decide)
  have hbacking := hkept (.num .backingIndex) (by decide)
  have hoffset := hkept (.num .objectOffset) (by decide)
  have hsize := hkept (.num .reqSize) (by decide)
  have halignment := hkept (.num .reqAlignment) (by decide)
  simp [unsigned_num hvalid, uint64_num hvalid] at hmember
  simp [Get.runs, Get.outcome, Value.Fits, Tracked.value, orElse, hmember, initial,
    asUInt_num hvalid, asUInt64_num hvalid] at hafter
  rw [hrestored]
  clear hrestored hkept
  simp +contextual [Get.Converts, Get.runs, Tracked.value, target, orElse, hmember, hafter,
    haddress, halias, htype, hbacking, hoffset, hsize, halignment, initial, asUInt_num hvalid,
    asUInt64_num hvalid]
  have haliased : isAliased t = true ↔ t.num .aliasIndex ≠ noIndex := by simp [isAliased]
  have hbacked : isBacked t = true ↔ t.num .backingIndex ≠ noIndex := by simp [isBacked]
  grind

/-! ### Other objects -/

theorem fence_restored_iff (hvalid : Valid .fence t) :
    Restored .fence t ↔ t.num .flags < 2 ^ 31 := by
  rw [restored_iff_rest hvalid rfl rfl ⟨by decide, by decide, by decide, by decide⟩ (by decide)]
  simp [Get.Converts, Get.runs, Get.outcome, Value.Fits, Tracked.value, target,
    unsigned_num hvalid]
  have hflags := hvalid.num .flags
  simp at hflags
  -- the flags are written as an unsigned number and read as a signed one
  by_cases hlt : t.num .flags < 2 ^ 31
  · have hread : asInt (some (.number (t.num .flags))) = some (.number (t.num .flags)) := by
      rw [asInt, if_pos (by omega)]
    simp [hread]
    exact hlt
  · have hread : asInt (some (.number (t.num .flags))) = none := by
      rw [asInt, if_neg (by omega)]
    simp [hread]
    omega

theorem framebuffer_restored_iff (hvalid : Valid .framebuffer t) : Restored .framebuffer t ↔
    t.num .width = 0 ∧ t.num .height = 0 ∧ t.num .layers = 0 := by
  rw [restored_iff_rest hvalid rfl (List.append_nil _).symm
    ⟨by decide, by decide, by decide, by decide⟩ (by decide)]
  simp only [Tracked.value, target, initial, initialNum, number, List.forall_mem_cons]
  simp
  omega

theorem indirectCommandsLayout_restored (hvalid : Valid .indirectCommandsLayout t) :
    Restored .indirectCommandsLayout t := by
  rw [restored_iff_rest hvalid rfl rfl ⟨by decide, by decide, by decide, by decide⟩ (by decide)]
  by_cases hlayout : t.num .pipelineLayoutIndex = noIndex <;>
    simp [Get.Converts, Get.runs, Get.outcome, Value.Fits, Tracked.value, target,
      unsigned_num hvalid, asUInt_num hvalid, hlayout]

theorem pipelineLayout_restored (hvalid : Valid .pipelineLayout t) :
    Restored .pipelineLayout t := by
  rw [restored_iff_rest hvalid rfl rfl ⟨by decide, by decide, by decide, by decide⟩ (by decide)]
  have hindices := elements_uint32 (hvalid.list .layoutIndices)
  by_cases hempty : t.list .layoutIndices = [] <;>
    simp [Get.Converts, Get.runs, Get.outcome, Value.Fits, Tracked.value, target,
      asUInt_num hvalid, hindices, hempty]

/-- The types with numbers only, all of which are written. -/
theorem numbers_restored (hvalid : Valid type t)
    (htype : type = .tensorView ∨ type = .swapchain ∨ type = .pipeline ∨ type = .queue ∨
      type = .imageView ∨ type = .bufferView ∨ type = .descriptorUpdateTemplate) :
    Restored type t := by
  rcases htype with rfl | rfl | rfl | rfl | rfl | rfl | rfl <;>
    rw [restored_iff_rest hvalid rfl rfl ⟨by decide, by decide, by decide, by decide⟩
      (by decide)] <;>
    simp [Get.Converts, Get.runs, Get.outcome, Value.Fits, Tracked.value, target, orElse,
      unsigned_num hvalid, uint64_num hvalid, asUInt_num hvalid, asUInt64_num hvalid]

theorem surface_restored (hvalid : Valid .surface t) : Restored .surface t := by
  rw [restored_iff_rest hvalid rfl rfl ⟨by decide, by decide, by decide, by decide⟩ (by decide)]
  simp [Get.Converts, Get.runs, Get.outcome, Value.Fits, Tracked.value, target, asUInt_num hvalid,
    asInt_num hvalid]

theorem shaderObject_restored (hvalid : Valid .shaderObject t) : Restored .shaderObject t := by
  rw [restored_iff_rest hvalid rfl rfl ⟨by decide, by decide, by decide, by decide⟩ (by decide)]
  simp [Get.Converts, Get.runs, Get.outcome, Value.Fits, Tracked.value, target, asString,
    asUInt_num hvalid]

/-- A size of zero is read as a name with a null character. -/
theorem asIntToString_zero :
    asIntToString (some (.number (unsigned 0))) = some (.text (String.singleton (Char.ofNat 0))) :=
  rfl

theorem shaderModule_restored_iff (hvalid : Valid .shaderModule t) :
    Restored .shaderModule t ↔ t.num .size = 0 ∧ t.text .name = "" := by
  rw [restored_iff_parts hvalid rfl rfl ⟨by decide, by decide, by decide, by decide⟩]
  have haddress := hvalid.num .enablesDeviceAddress
  simp only [range] at haddress
  have hname : "\x00" ≠ t.text .name := by
    intro hname
    have hnull := hvalid.text .name
    rw [← hname] at hnull
    simp at hnull
  by_cases hsize : t.num .size = 0
  · by_cases hempty : t.text .name = "" <;> by_cases hflag : t.num .enablesDeviceAddress = 0 <;>
      simp [trackableStatements, trackableJson, Get.Converts, Get.runs, Get.outcome, Value.Fits,
        Tracked.value, target, asBool, initial, asIntToString_zero, hsize, hname, hempty, hflag]
    all_goals omega
  · by_cases hflag : t.num .enablesDeviceAddress = 0 <;>
      simp [trackableStatements, trackableJson, Get.Converts, Get.runs, Get.outcome, Tracked.value,
        target, asBool, initial, Ne.symm hsize, hsize, hflag]

/-! ### All types -/

/-- The objects that are restored, by type. -/
def RestoredWhen : TrackedType → Tracked → Prop
  | .buffer, t =>
      RequirementsKept t ∧ t.num .tiling = 1 ∧ t.num .written = 0 ∧ t.num .updates = 0
  | .image, t =>
      RequirementsKept t ∧ t.num .initialLayout = 0 ∧ t.num .written = 0 ∧ t.num .updates = 0
  | .tensor, t => RequirementsKept t ∧ t.num .usage < 2 ^ 32
  | .accelerationStructure, t =>
      isBacked t = false ∧ t.num .reqSize = 0 ∧ t.num .reqAlignment = 0 ∧ t.num .tiling = 1
  | .dataGraphPipelineSession, t =>
      t.num .deviceAddress = 0 ∧ isAliased t = false ∧ isBacked t = false ∧
        t.num .reqSize = 0 ∧ t.num .reqAlignment = 0
  | .shaderModule, t => t.num .size = 0 ∧ t.text .name = ""
  | .framebuffer, t => t.num .width = 0 ∧ t.num .height = 0 ∧ t.num .layers = 0
  | .fence, t => t.num .flags < 2 ^ 31
  | _, _ => True

/-- **Which objects are restored.**  The others lose a member that is read under another key or
not at all, with fewer bits than it has, or into the wrong field. -/
theorem tracking_metadata_restored_iff (hvalid : Valid type t) :
    Restored type t ↔ RestoredWhen type t := by
  cases type with
  | buffer => exact buffer_restored_iff hvalid
  | image => exact image_restored_iff hvalid
  | tensor => exact tensor_restored_iff hvalid
  | tensorView => exact iff_of_true (numbers_restored hvalid (by simp)) trivial
  | accelerationStructure => exact accelerationStructure_restored_iff hvalid
  | dataGraphPipelineSession => exact dataGraphPipelineSession_restored_iff hvalid
  | shaderModule => exact shaderModule_restored_iff hvalid
  | shaderObject => exact iff_of_true (shaderObject_restored hvalid) trivial
  | swapchain => exact iff_of_true (numbers_restored hvalid (by simp)) trivial
  | surface => exact iff_of_true (surface_restored hvalid) trivial
  | framebuffer => exact framebuffer_restored_iff hvalid
  | pipeline => exact iff_of_true (numbers_restored hvalid (by simp)) trivial
  | pipelineLayout => exact iff_of_true (pipelineLayout_restored hvalid) trivial
  | queue => exact iff_of_true (numbers_restored hvalid (by simp)) trivial
  | fence => exact fence_restored_iff hvalid
  | imageView => exact iff_of_true (numbers_restored hvalid (by simp)) trivial
  | bufferView => exact iff_of_true (numbers_restored hvalid (by simp)) trivial
  | indirectCommandsLayout =>
      exact iff_of_true (indirectCommandsLayout_restored hvalid) trivial
  | descriptorUpdateTemplate => exact iff_of_true (numbers_restored hvalid (by simp)) trivial

end

/-! ### Objects that are not restored -/

/-- An object without memory and without an alias, that has not been destroyed; one of its fields
has the value. -/
def sample (field : NumField) (value : Int) : Tracked where
  num := Function.update (fun field =>
    if field = .destroyedFrame ∨ field = .aliasIndex ∨ field = .backingIndex then noIndex
    else if field = .tiling then 1
    else 0) field value
  text _ := ""
  list _ := []

theorem sample_valid {type : TrackedType} {field : NumField} {value : Int}
    (hvalue : (range type field).1 ≤ value ∧ value < (range type field).2) :
    Valid type (sample field value) where
  num other := by
    by_cases hother : other = field
    · subst hother
      simpa [sample] using hvalue
    · simp only [sample, Function.update_of_ne hother]
      cases other <;> simp [range, noIndex] <;> split <;> norm_num
  text _ := by simp [sample]
  list _ := by simp [sample]

/-- A buffer with a name and a device address that was bound behind the front of its memory, aliased
another object, and has been destroyed. -/
def vertexBuffer : Tracked where
  num
    | .index => 3
    | .creationFrame => 1
    | .creationPacket => 40
    | .creationThread => 2
    | .creationCallId => 17
    | .destroyedFrame => 9
    | .destroyedPacket => 300
    | .destroyedThread => 1
    | .destroyedCallId => 18
    | .size => 1024
    | .deviceAddress => 0x10000
    | .aliasIndex => 2
    | .aliasType => 10
    | .backingIndex => 5
    | .objectOffset => 4096
    | .reqSize => 1088
    | .reqAlignment => 64
    | .memoryFlags => 7
    | .tiling => 1
    | .flags => 16
    | .usage => 0x20080
    | .usage2 => 0x20080
    | _ => 0
  text
    | .name => "vertices"
    | .stageName => ""
  list _ := []

theorem vertexBuffer_valid : Valid .buffer vertexBuffer where
  num field := by cases field <;> simp [range, vertexBuffer]
  text field := by cases field <;> simp [vertexBuffer]
  list _ := by simp [vertexBuffer]

/-- The buffer is restored. -/
theorem tracking_metadata_restored_buffer : Restored .buffer vertexBuffer := by
  rw [tracking_metadata_restored_iff vertexBuffer_valid]
  simp [RestoredWhen, RequirementsKept, isBacked, noIndex, vertexBuffer]

/-- The initial layout of an image is written as `initalLayout`, the size of a shader module is
read into its name, and the size of a framebuffer is not read. -/
theorem tracking_metadata_lost :
    (Valid .image (sample .initialLayout 8) ∧ ¬ Restored .image (sample .initialLayout 8)) ∧
    (Valid .shaderModule (sample .size 64) ∧ ¬ Restored .shaderModule (sample .size 64)) ∧
    (Valid .framebuffer (sample .width 64) ∧ ¬ Restored .framebuffer (sample .width 64)) := by
  have himage : Valid .image (sample .initialLayout 8) := sample_valid (by simp [range])
  have hmodule : Valid .shaderModule (sample .size 64) := sample_valid (by simp [range])
  have hframebuffer : Valid .framebuffer (sample .width 64) := sample_valid (by simp [range])
  refine ⟨⟨himage, ?_⟩, ⟨hmodule, ?_⟩, ⟨hframebuffer, ?_⟩⟩
  · rw [image_restored_iff himage]
    simp [sample]
  · rw [shaderModule_restored_iff hmodule]
    simp [sample]
  · rw [framebuffer_restored_iff hframebuffer]
    simp [sample]

end TrackingMetadata
end Lavatube
