import Lavatube.Capture
import Lavatube.Lib.ByteMemory
import Lavatube.Lib.LittleEndian
import Lavatube.ReplayRemap

/-!
# Objects in the data of descriptor update templates

The data of `vkUpdateDescriptorSetWithTemplate` and `vkCmdPushDescriptorSetWithTemplate` has
handles of the application in it.  Capture replaces each of them by the index of its object, and
replay each index by its own handle.  The indices have no thread and packet beside them, so a
reader waits for the creation of such an object only where something else in front of the data
makes it wait.

* `templateFields`, `rewriteTemplateData` — where the data has handles, and the rewriting.
* `lookedUp_of_captured` — replay looks up the objects that capture has stored.
* `Precedes` — what the waits of a packet cover.
* `template_objects_created` — the objects of template data have been created.
-/

namespace Lavatube
namespace TemplateData

open Transition
open ByteMemory (Memory slice store)
open Capture (Action ChangeSource)
open Replay (Packet Reader Awaits Satisfied)

/-! ## The data -/

/-- The types of objects that template data names. -/
inductive ObjectType where
  | sampler
  | imageView
  | buffer
  | bufferView
  | accelerationStructure
  | tensorView
deriving DecidableEq, Repr

/-- `VkDescriptorType`. -/
inductive DescriptorType where
  | sampler
  | combinedImageSampler
  | sampledImage
  | storageImage
  | inputAttachment
  | uniformBuffer
  | storageBuffer
  | uniformBufferDynamic
  | storageBufferDynamic
  | uniformTexelBuffer
  | storageTexelBuffer
  | accelerationStructure
  | inlineUniformBlock
  | tensor
  | partitionedAccelerationStructure
  | mutable
  | blockMatchImage
  | sampleWeightImage
  | accelerationStructureNV
  | maxEnum
deriving DecidableEq, Repr

/-- The size of an element and the handles in it, with their places in the structure; `none` is
a type that both sides abort at. -/
def DescriptorType.element : DescriptorType → Option (Nat × List (ObjectType × Nat))
  | .sampler => some (24, [(.sampler, 0)])
  | .combinedImageSampler => some (24, [(.sampler, 0), (.imageView, 8)])
  | .sampledImage | .storageImage | .inputAttachment => some (24, [(.imageView, 8)])
  | .uniformBuffer | .storageBuffer | .uniformBufferDynamic | .storageBufferDynamic =>
      some (24, [(.buffer, 0)])
  | .uniformTexelBuffer | .storageTexelBuffer => some (8, [(.bufferView, 0)])
  | .accelerationStructure => some (8, [(.accelerationStructure, 0)])
  | .inlineUniformBlock => some (0, [])
  | .tensor => some (8, [(.tensorView, 0)])
  | .partitionedAccelerationStructure | .mutable | .blockMatchImage | .sampleWeightImage
  | .accelerationStructureNV | .maxEnum => none

/-- `VkDescriptorUpdateTemplateEntry`. -/
structure Entry where
  offset : Nat
  stride : Nat
  descriptorCount : Nat
  descriptorType : DescriptorType
deriving DecidableEq, Repr

/-- The handles that an entry names, in the order of the loops; a stride of zero is the size of
the element. -/
def Entry.fields (entry : Entry) : Option (List (ObjectType × Nat)) :=
  if entry.descriptorCount = 0 then
    some []
  else
    entry.descriptorType.element.map fun (elementSize, handles) =>
      let stride := if entry.stride = 0 then elementSize else entry.stride
      (List.range entry.descriptorCount).flatMap fun i =>
        handles.map fun (type, place) => (type, entry.offset + i * stride + place)

/-- The handles that all entries name. -/
def templateFields (entries : List Entry) : Option (List (ObjectType × Nat)) :=
  (entries.mapM Entry.fields).map List.flatten

/-- A handle in the data. -/
def load (data : Memory) (place : Nat) : Nat :=
  LittleEndian.decode (slice data place 8)

/-- One handle is replaced. -/
def rewriteField (translate : ObjectType → Nat → Option Nat) (data : Memory)
    (field : ObjectType × Nat) : Option Memory :=
  (translate field.1 (load data field.2)).map fun value =>
    store data field.2 (LittleEndian.encode 8 value)

/-- The loops of both `rewrite_descriptor_update_template_data`. -/
def rewriteTemplateData (translate : ObjectType → Nat → Option Nat) (entries : List Entry)
    (data : Memory) : Option Memory :=
  (templateFields entries).bind fun fields => fields.foldlM (rewriteField translate) data

/-- `rewrite_descriptor_update_template_data` of the capture, which also aborts at a template
without entries. -/
def captureTemplateData (indexOrNull : ObjectType → Nat → Nat) (entries : List Entry)
    (data : Memory) : Option Memory :=
  if entries = [] then none
  else rewriteTemplateData (fun type handle => some (indexOrNull type handle)) entries data

/-- The translation of one word on replay: an index is 32 bits wide. -/
def translateIndex (remapAt : ObjectType → Nat → Option Nat) (type : ObjectType) (word : Nat) :
    Option Nat :=
  let index := word % 2 ^ 32
  if index = ReplayRemap.nullValue then some 0 else remapAt type index

/-- `rewrite_descriptor_update_template_data` of the replay; `none` is a failed assertion of
`replay_remap::at`, or an abort. -/
def replayTemplateData (remapAt : ObjectType → Nat → Option Nat) (entries : List Entry)
    (data : Memory) : Option Memory :=
  rewriteTemplateData (translateIndex remapAt) entries data

/-- While it rewrites the data, replay looks up an index. -/
def LooksUp (remapAt : ObjectType → Nat → Option Nat) (entries : List Entry) (data : Memory)
    (type : ObjectType) (index : Nat) : Prop :=
  ∃ done place rest current,
    templateFields entries = some (done ++ (type, place) :: rest) ∧
      done.foldlM (rewriteField (translateIndex remapAt)) data = some current ∧
        index = load current place % 2 ^ 32 ∧ index ≠ ReplayRemap.nullValue

/-! ### What capture has stored -/

section

variable {data : Memory} {translate : ObjectType → Nat → Option Nat}

theorem load_store_self {value place : Nat} (hvalue : value < 2 ^ 64) :
    load (store data place (LittleEndian.encode 8 value)) place = value := by
  have hslice : slice (store data place (LittleEndian.encode 8 value)) place 8 =
      LittleEndian.encode 8 value := by
    refine List.ext_getElem (by simp) fun i hi _ => ?_
    have hlt : i < 8 := by simpa using hi
    have hlength : i < (LittleEndian.encode 8 value).length := by simpa using hlt
    simp only [slice, List.getElem_map, List.getElem_range, store, LittleEndian.encode_length]
    rw [if_pos (by omega), Nat.add_sub_cancel_left, List.getD_eq_getElem?_getD,
      List.getElem?_eq_getElem hlength, Option.getD_some]
  rw [load, hslice, LittleEndian.decode_encode (by simpa using hvalue)]

/-- Two handles that do not overlap. -/
def Apart (first second : Nat) : Prop :=
  first + 8 ≤ second ∨ second + 8 ≤ first

theorem load_store_of_apart {value place other : Nat} (hapart : Apart place other) :
    load (store data place (LittleEndian.encode 8 value)) other = load data other := by
  have hslice : slice (store data place (LittleEndian.encode 8 value)) other 8 =
      slice data other 8 := by
    refine List.map_congr_left fun i hi => ?_
    have hlt := List.mem_range.mp hi
    unfold store
    rw [LittleEndian.encode_length, if_neg]
    rcases hapart with hfront | hback <;> omega
  rw [load, hslice, load]

/-- Handles elsewhere are left alone. -/
theorem foldlM_load_of_apart {fields : List (ObjectType × Nat)} {after : Memory} {place : Nat}
    (hfold : fields.foldlM (rewriteField translate) data = some after)
    (hapart : ∀ field ∈ fields, Apart field.2 place) : load after place = load data place := by
  induction fields generalizing data with
  | nil =>
      cases hfold
      rfl
  | cons field fields ih =>
      rw [List.foldlM_cons, Option.bind_eq_bind, Option.bind_eq_some_iff] at hfold
      obtain ⟨middle, hfield, hrest⟩ := hfold
      obtain ⟨value, -, rfl⟩ := Option.map_eq_some_iff.mp hfield
      rw [ih hrest fun other hmem => hapart other (List.mem_cons_of_mem _ hmem),
        load_store_of_apart (hapart field List.mem_cons_self)]

/-- A handle of the rewritten data is the translation of what was there. -/
theorem foldlM_load_of_mem {fields : List (ObjectType × Nat)} {after : Memory}
    {field : ObjectType × Nat} (hfold : fields.foldlM (rewriteField translate) data = some after)
    (hapart : fields.Pairwise fun first second => Apart first.2 second.2)
    (hwidth : ∀ type word value, translate type word = some value → value < 2 ^ 64)
    (hmem : field ∈ fields) :
    translate field.1 (load data field.2) = some (load after field.2) := by
  induction fields generalizing data with
  | nil => cases hmem
  | cons first fields ih =>
      rw [List.foldlM_cons, Option.bind_eq_bind, Option.bind_eq_some_iff] at hfold
      obtain ⟨middle, hfirst, hrest⟩ := hfold
      obtain ⟨value, hvalue, rfl⟩ := Option.map_eq_some_iff.mp hfirst
      obtain ⟨hcross, hpairs⟩ := List.pairwise_cons.mp hapart
      rcases List.mem_cons.mp hmem with rfl | hmem
      · have hlater : ∀ other ∈ fields, Apart other.2 field.2 := fun other hother =>
          (hcross other hother).symm
        rw [foldlM_load_of_apart hrest hlater, load_store_self (hwidth _ _ _ hvalue), hvalue]
      · rw [← ih hrest hpairs hmem, load_store_of_apart (hcross field hmem)]

/-- **Replay looks up what capture has stored**: the index of the object whose handle the
application has at that place of the data. -/
theorem lookedUp_of_captured {indexOrNull : ObjectType → Nat → Nat} {entries : List Entry}
    {fields : List (ObjectType × Nat)} {remapAt : ObjectType → Nat → Option Nat} {stored : Memory}
    {type : ObjectType} {index : Nat} (hfields : templateFields entries = some fields)
    (hapart : fields.Pairwise fun first second => Apart first.2 second.2)
    (hindex : ∀ type handle, indexOrNull type handle < 2 ^ 32)
    (hcapture : captureTemplateData indexOrNull entries data = some stored)
    (hlooks : LooksUp remapAt entries stored type index) :
    ∃ place, (type, place) ∈ fields ∧ index = indexOrNull type (load data place) := by
  obtain ⟨done, place, rest, current, hsplit, hdone, hindex', -⟩ := hlooks
  subst index
  obtain rfl : fields = done ++ (type, place) :: rest := Option.some.inj (hfields.symm.trans hsplit)
  rw [captureTemplateData, Option.ite_none_left_eq_some, rewriteTemplateData, hfields,
    Option.bind_some] at hcapture
  have hmem : (type, place) ∈ done ++ (type, place) :: rest := by simp
  have hstored := foldlM_load_of_mem hcapture.2 hapart
    (fun type word value hvalue => by
      have hlt := hindex type word
      rw [Option.some.inj hvalue] at hlt
      omega) hmem
  have hfront : ∀ field ∈ done, Apart field.2 place := fun field hfield =>
    (List.pairwise_append.mp hapart).2.2 field hfield (type, place) List.mem_cons_self
  refine ⟨place, hmem, ?_⟩
  rw [foldlM_load_of_apart hdone hfront, ← Option.some.inj hstored]
  exact Nat.mod_eq_of_lt (hindex _ _)

end

/-! ## What a reader has waited for -/

/-- The reader has read all handles of packet `k` and executes it. -/
def Executes (reader : Reader) (k : Nat) : Prop :=
  reader.pc = .handles [] ∧ reader.completed = k

instance (reader : Reader) (k : Nat) : Decidable (Executes reader k) :=
  inferInstanceAs (Decidable (_ ∧ _))

/-- The waits of packet `m` are over when packet `k` has been executed.  A barrier is counted
before its waits. -/
def Behind (packet : Packet) (m k : Nat) : Prop :=
  m < k ∨ m = k ∧ ∃ handles, packet = .call handles

/-- **What the waits cover**: packet `j` of thread `i` is complete before packet `k` of a thread
is executed, because the thread has waited for it, or for a packet that has. -/
inductive Precedes (streams : Nat → List Packet) (i j : Nat) : Nat → Nat → Prop
  | waits {t k m later : Nat} {packet : Packet} (hpacket : (streams t)[m]? = some packet)
      (hbehind : Behind packet m k) (hawaits : Awaits t packet i later) (hle : j ≤ later) :
      Precedes streams i j t k
  | through {t k m u l : Nat} {packet : Packet} (hpacket : (streams t)[m]? = some packet)
      (hbehind : Behind packet m k) (hawaits : Awaits t packet u l)
      (hprecedes : Precedes streams i j u l) : Precedes streams i j t k

section

variable {threadCount : Nat} {streams : Nat → List Packet} {replay : Replay.State}
variable {stream : List Packet} {completed : Nat → Nat} {reader : Reader} {packet : Packet}
variable {t q i j k m : Nat}

theorem satisfied_of_behind (hinv : Replay.ReaderInv stream completed t reader)
    (hexecuted : k < reader.completed ∨ Executes reader k) (hpacket : stream[m]? = some packet)
    (hbehind : Behind packet m k) : Satisfied completed t packet := by
  by_cases hpassed : m < reader.passed
  · exact hinv.passed m packet hpassed hpacket
  -- the last packet that is counted, or the one that is executed
  have hplace := hinv.place
  unfold Replay.Place at hplace
  unfold Reader.passed at hpassed
  rcases hexecuted with hlt | ⟨hpc, rfl⟩
  · cases hpc : reader.pc with
    | barrierWait indices next =>
        simp only [hpc] at hplace hpassed
        obtain ⟨-, last, hcompleted, hbarrier, -⟩ := hplace
        rcases hbehind with hbefore | ⟨rfl, handles, rfl⟩
        · omega
        · obtain rfl : m = last := by omega
          cases hpacket.symm.trans hbarrier
    | _ =>
        simp only [hpc] at hpassed
        unfold Behind at hbehind
        omega
  · simp only [hpc] at hplace hpassed
    rcases hbehind with hbefore | ⟨rfl, -⟩
    · exact absurd hbefore hpassed
    · obtain ⟨-, done, hcall, hdone⟩ := hplace
      rw [List.append_nil] at hcall
      cases hpacket.symm.trans hcall
      exact hdone

theorem completed_of_awaits (hsatisfied : Satisfied completed t packet)
    (hawaits : Awaits t packet i j) : j < completed i := by
  cases packet with
  | call handles =>
      obtain ⟨handle, hmem, hother, rfl, rfl⟩ := hawaits
      exact (hsatisfied handle hmem).resolve_left hother
  | threadBarrier indices =>
      obtain ⟨hother, index, hindex, hlt⟩ := hawaits
      exact hlt.trans_le ((hsatisfied i index hindex).resolve_left hother)

/-- **What a packet has waited for is complete.** -/
theorem Precedes.complete (hprecedes : Precedes streams i j t k) {schedule : List Nat}
    (hreplay : exec (Replay.step threadCount streams) (fun _ => {}) schedule = some replay)
    (hexecuted : k < (replay t).completed ∨ Executes (replay t) k) :
    j < (replay i).completed := by
  have hinv := Replay.exec_inv hreplay
  induction hprecedes with
  | waits hpacket hbehind hawaits hle =>
      have hsatisfied := satisfied_of_behind (hinv _) hexecuted hpacket hbehind
      exact hle.trans_lt (completed_of_awaits hsatisfied hawaits)
  | through hpacket hbehind hawaits _ ih =>
      have hsatisfied := satisfied_of_behind (hinv _) hexecuted hpacket hbehind
      exact ih (.inl (completed_of_awaits hsatisfied hawaits))

/-! ## The objects have been created -/

/-- The reader has executed packet `k`. -/
def HasExecuted (reader : Reader) (k : Nat) : Prop :=
  k < reader.completed ∨ k < reader.passed

instance (reader : Reader) (k : Nat) : Decidable (HasExecuted reader k) :=
  inferInstanceAs (Decidable (_ ∨ _))

/-- `replay_remap::at`: an entry is set when the packet that creates its object is executed, and
an empty one fails the assertion. -/
def remapAt (handles : ObjectType → Nat → Nat) (creator : ObjectType → Nat → ChangeSource)
    (replay : Replay.State) (type : ObjectType) (index : Nat) : Option Nat :=
  if HasExecuted (replay (creator type index).thread) (creator type index).packet then
    some (handles type index)
  else
    none

/-- The call that `creator` stands for had returned when thread `t` called what became its
packet `q`. -/
def ReturnedBefore (actions : List Action) (creator : ChangeSource) (t q : Nat) : Prop :=
  ∃ before after threadBarrier middle,
    actions = before ++ .enter t threadBarrier :: after ∧
      exec Capture.step {} before = some middle ∧
        creator.packet < (middle.writers creator.thread).packet ∧
          (middle.writers t).packets.length ≤ q

variable {s : Capture.State} {actions : List Action} {schedule : List Nat}

/-- On its own thread the packet that created an object is in front. -/
theorem ReturnedBefore.lt {creator : ChangeSource}
    (hreturned : ReturnedBefore actions creator creator.thread q) : creator.packet < q := by
  obtain ⟨before, _, _, middle, -, hbefore, hcreated, hlength⟩ := hreturned
  rw [(Capture.exec_writerInv hbefore).length] at hcreated
  rw [Capture.Writer.packets, List.length_append] at hlength
  omega

/-- Rewriting succeeds when every index that is looked up is there. -/
theorem replayTemplateData_isSome {remap : ObjectType → Nat → Option Nat} {entries : List Entry}
    {data : Memory} (hsupported : (templateFields entries).isSome = true)
    (hlooks : ∀ type index, LooksUp remap entries data type index →
      (remap type index).isSome = true) :
    (replayTemplateData remap entries data).isSome = true := by
  obtain ⟨fields, hfields⟩ := Option.isSome_iff_exists.mp hsupported
  have hfold : ∀ rest done current, fields = done ++ rest →
      done.foldlM (rewriteField (translateIndex remap)) data = some current →
      (rest.foldlM (rewriteField (translateIndex remap)) current).isSome = true := by
    intro rest
    induction rest with
    | nil => exact fun _ _ _ _ => rfl
    | cons field rest ih =>
        intro done current hsplit hdone
        have htranslated : (translateIndex remap field.1 (load current field.2)).isSome = true := by
          unfold translateIndex
          by_cases hnull : load current field.2 % 2 ^ 32 = ReplayRemap.nullValue
          · simp only [hnull, if_true, Option.isSome_some]
          · simp only [hnull, if_false]
            exact hlooks _ _ ⟨done, field.2, rest, current, hsplit ▸ hfields, hdone, rfl, hnull⟩
        obtain ⟨value, hvalue⟩ := Option.isSome_iff_exists.mp htranslated
        have hnext : rewriteField (translateIndex remap) current field =
            some (store current field.2 (LittleEndian.encode 8 value)) := by
          rw [rewriteField, hvalue, Option.map_some]
        rw [List.foldlM_cons, hnext]
        refine ih (done ++ [field]) _ (by rw [hsplit, List.append_assoc, List.singleton_append]) ?_
        rw [List.foldlM_append, hdone]
        simp [hnext]
  rw [replayTemplateData, rewriteTemplateData, hfields]
  exact hfold fields [] data rfl rfl

/-- **The objects that template data names have been created** when replay looks them up, if
each was created by the same thread, or by a packet that the waits of the reader cover. -/
theorem template_objects_created {handles : ObjectType → Nat → Nat}
    {creator : ObjectType → Nat → ChangeSource} {entries : List Entry} {data : Memory}
    (_hcapture : exec Capture.step {} actions = some s)
    (hreplay : exec (Replay.step s.count s.streams) (fun _ => {}) schedule = some replay)
    (hexecutes : Executes (replay t) q) (hsupported : (templateFields entries).isSome = true)
    (hreturned : ∀ type index, LooksUp (remapAt handles creator replay) entries data type index →
      ReturnedBefore actions (creator type index) t q)
    (hcovered : ∀ type index, LooksUp (remapAt handles creator replay) entries data type index →
      (creator type index).thread = t ∨
        Precedes s.streams (creator type index).thread (creator type index).packet t q) :
    (∀ type index, LooksUp (remapAt handles creator replay) entries data type index →
      (creator type index).packet < (replay (creator type index).thread).completed) ∧
      (replayTemplateData (remapAt handles creator replay) entries data).isSome = true := by
  have hcreated : ∀ type index, LooksUp (remapAt handles creator replay) entries data type index →
      (creator type index).packet < (replay (creator type index).thread).completed := by
    intro type index hlooks
    rcases hcovered type index hlooks with rfl | hprecedes
    · rw [hexecutes.2]
      exact (hreturned type index hlooks).lt
    · exact hprecedes.complete hreplay (.inr hexecutes)
  refine ⟨hcreated, replayTemplateData_isSome hsupported fun type index hlooks => ?_⟩
  rw [remapAt, if_pos (.inl (hcreated type index hlooks))]
  rfl

/-- A template with one texel buffer. -/
def texelBuffer : List Entry := [⟨0, 0, 1, .uniformTexelBuffer⟩]

/-- The data that capture has stored, with the index 5 of a buffer view. -/
def texelBufferData : Memory := store ByteMemory.zeroed 0 (LittleEndian.encode 8 5)

/-- A call that creates an object. -/
def creates (t object : Nat) : List Action :=
  [.enter t false, .checkPending t, .beginCall t, .modify t object, .writeHandle t (some object),
    .endPacket t]

/-- Thread 0 creates a descriptor set and then a template, and thread 1 the buffer view. -/
def createdByThread1 : List Action :=
  [Action.makeWriter true, .makeWriter true] ++ creates 0 1 ++ creates 0 2 ++ creates 1 5

/-- The packet of thread 1. -/
def createdIn : ObjectType → Nat → ChangeSource := fun _ _ => ⟨1, 1⟩

/-- The data has one index. -/
theorem lookedUp_texelBuffer {remap : ObjectType → Nat → Option Nat} {type : ObjectType}
    {index : Nat} :
    LooksUp remap texelBuffer texelBufferData type index ↔ type = .bufferView ∧ index = 5 := by
  have hfields : templateFields texelBuffer = some [(.bufferView, 0)] := rfl
  have hload : load texelBufferData 0 = 5 := by decide
  constructor
  · rintro ⟨done, place, rest, current, hsplit, hdone, hindex, -⟩
    subst index
    rw [hfields, Option.some.injEq] at hsplit
    cases done with
    | nil =>
        cases hdone
        injection hsplit with hfield
        injection hfield with htype hplace
        subst htype hplace
        exact ⟨rfl, by simp [hload]⟩
    | cons field done =>
        have hlength := congrArg List.length hsplit
        simp at hlength
  · rintro ⟨rfl, rfl⟩
    exact ⟨[], 0, [], texelBufferData, hfields, rfl, by simp [hload], by decide⟩

/-- Thread 0 updates the descriptor set, behind a barrier or not. -/
def updatedByThread0 (threadBarrier : Bool) : List Action :=
  (if threadBarrier then [Action.injectLocal 0] else []) ++
    [Action.checkPending 0, .beginCall 0, .writeHandle 0 (some 1), .writeHandle 0 (some 2),
      .endPacket 0]

theorem template_objects_created_barrier : ∃ s replay,
    exec Capture.step {} (createdByThread1 ++ .enter 0 true :: updatedByThread0 true) = some s ∧
    exec (Replay.step s.count s.streams) (fun _ => {})
      (List.replicate 12 0 ++ List.replicate 9 1 ++ List.replicate 8 0) = some replay ∧
    Executes (replay 0) 4 ∧
    (∀ type index, LooksUp (remapAt (fun _ _ => 7) createdIn replay) texelBuffer texelBufferData
      type index → 1 < (replay 1).completed) ∧
    (replayTemplateData (remapAt (fun _ _ => 7) createdIn replay) texelBuffer
      texelBufferData).isSome = true := by
  obtain ⟨s, replay, middle, hcapture, hreplay, hexecutes, hbefore, hcreated, hlength, hbarrier⟩ :
      ∃ s replay middle,
        exec Capture.step {} (createdByThread1 ++ .enter 0 true :: updatedByThread0 true) =
          some s ∧
        exec (Replay.step s.count s.streams) (fun _ => {})
          (List.replicate 12 0 ++ List.replicate 9 1 ++ List.replicate 8 0) = some replay ∧
        Executes (replay 0) 4 ∧ exec Capture.step {} createdByThread1 = some middle ∧
        1 < (middle.writers 1).packet ∧ (middle.writers 0).packets.length ≤ 4 ∧
        s.streams 0 = [.threadBarrier [], .call [⟨1, 0, 1⟩], .call [⟨2, 0, 2⟩],
          .threadBarrier [3, 2], .call [⟨1, 0, 1⟩, ⟨2, 0, 2⟩]] :=
    ⟨_, _, _, rfl, rfl, by decide, rfl, by decide, by decide, rfl⟩
  have hprecedes : Precedes s.streams 1 1 0 4 := by
    have hpacket : (s.streams 0)[3]? = some (.threadBarrier [3, 2]) := by rw [hbarrier]; rfl
    exact .waits hpacket (.inl (by decide)) ⟨by decide, 2, rfl, by decide⟩ le_rfl
  exact ⟨s, replay, hcapture, hreplay, hexecutes,
    template_objects_created hcapture hreplay hexecutes rfl
      (fun _ _ _ => ⟨_, _, true, middle, rfl, hbefore, hcreated, hlength⟩)
      (fun _ _ _ => .inr hprecedes)⟩

/-- Without the barrier nothing holds thread 0 up, and the entry is empty. -/
theorem template_object_missing : ∃ s middle replay,
    exec Capture.step {} (createdByThread1 ++ .enter 0 false :: updatedByThread0 false) = some s ∧
    exec Capture.step {} createdByThread1 = some middle ∧ 1 < (middle.writers 1).packet ∧
    exec (Replay.step s.count s.streams) (fun _ => {}) (List.replicate 15 0) = some replay ∧
    ReturnedBefore (createdByThread1 ++ .enter 0 false :: updatedByThread0 false)
      (createdIn .bufferView 5) 0 3 ∧
    Executes (replay 0) 3 ∧
    LooksUp (remapAt (fun _ _ => 7) createdIn replay) texelBuffer texelBufferData .bufferView 5 ∧
    ¬ 1 < (replay 1).completed ∧
    replayTemplateData (remapAt (fun _ _ => 7) createdIn replay) texelBuffer texelBufferData =
      none := by
  obtain ⟨s, middle, replay, hcapture, hbefore, hcreated, hlength, hreplay, hexecutes, hmissing⟩ :
      ∃ s middle replay,
        exec Capture.step {} (createdByThread1 ++ .enter 0 false :: updatedByThread0 false) =
          some s ∧
        exec Capture.step {} createdByThread1 = some middle ∧ 1 < (middle.writers 1).packet ∧
        (middle.writers 0).packets.length ≤ 3 ∧
        exec (Replay.step s.count s.streams) (fun _ => {}) (List.replicate 15 0) = some replay ∧
        Executes (replay 0) 3 ∧ replay 1 = {} :=
    ⟨_, _, _, rfl, rfl, by decide, by decide, rfl, by decide, rfl⟩
  refine ⟨s, middle, replay, hcapture, hbefore, hcreated, hreplay,
    ⟨_, _, false, middle, rfl, hbefore, hcreated, hlength⟩, hexecutes,
    lookedUp_texelBuffer.mpr ⟨rfl, rfl⟩, by rw [hmissing]; decide, ?_⟩
  have hempty : remapAt (fun _ _ => 7) createdIn replay .bufferView 5 = none := by
    rw [remapAt, if_neg]
    show ¬ HasExecuted (replay 1) 1
    rw [hmissing]
    decide
  have hfields : templateFields texelBuffer = some [(.bufferView, 0)] := rfl
  have hload : load texelBufferData 0 = 5 := by decide
  rw [replayTemplateData, rewriteTemplateData, hfields, Option.bind_some, List.foldlM_cons,
    rewriteField, hload]
  simp [translateIndex, ReplayRemap.nullValue, hempty]

/-! ### What a reader waits for -/

/-- **A handle of the packet**, or of one in front of it, whose object was last changed by the
creating thread when the creating packet had been written, or in that packet. -/
theorem precedes_of_handle {k index : Nat} {source : ChangeSource}
    (hcapture : exec Capture.step {} actions = some s)
    (hwrites : Capture.WritesHandle actions t k index source) (hother : source.thread ≠ t)
    (hfits : source.thread < 128) (hended : k < (s.writers t).stream.length) (hk : k ≤ q)
    (hj : j ≤ source.packet) : Precedes s.streams source.thread j t q := by
  obtain ⟨object, captured, hpackets, hhandle⟩ := hwrites.recorded hcapture
  rw [Capture.Writer.packets, List.getElem?_append_left hended] at hpackets
  have hstored : (s.streams t)[k]? =
      some (.call (captured.map Capture.CapturedHandle.stored)) := by
    rw [Capture.State.streams, List.getElem?_map, hpackets]
    rfl
  refine .waits hstored ?_ ?_ hj
  · rcases Nat.lt_or_eq_of_le hk with hlt | rfl
    · exact .inl hlt
    · exact .inr ⟨rfl, _, rfl⟩
  · have hthread : (⟨object, some source⟩ : Capture.CapturedHandle).stored.thread =
        source.thread := Capture.writeInt8_of_lt hfits
    refine ⟨_, List.mem_map_of_mem (List.mem_of_getElem? hhandle), ?_, ?_, rfl⟩
    · rw [Replay.Handle.Own, hthread]
      omega
    · rw [hthread, Int.toNat_natCast]

/-- **A barrier in front of the packet** that was injected when the creating packet had been
ended. -/
theorem precedes_of_barrier {indices : List Nat} {index : Nat}
    (hbarrier : (s.writers t).stream[k]? = some (.threadBarrier indices)) (hk : k < q)
    (hother : i ≠ t) (hindex : indices[i]? = some index) (hj : j < index) :
    Precedes s.streams i j t q := by
  have hstored : (s.streams t)[k]? = some (.threadBarrier indices) := by
    rw [Capture.State.streams, List.getElem?_map, hbarrier]
    rfl
  exact .waits hstored (.inl hk) ⟨hother, index, hindex, hj⟩ le_rfl

end

end TemplateData
end Lavatube
