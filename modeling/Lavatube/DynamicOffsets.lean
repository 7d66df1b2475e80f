import Lavatube.DescriptorTouch

/-!
# Dynamic offsets

A dynamic descriptor gets its offset when its set is bound, from a list with one offset for every
dynamic descriptor of the sets.  Capture and post-processing keep maps of the dynamic descriptors
that have been written, and go through them with a running index into the list: the map of capture
has the descriptors with null buffers, the one of post-processing has not.

* `postprocessWriteDescriptorSet`, `postprocessCopyDescriptorSet` — the maps of post-processing;
  those of capture are in `DescriptorTouch`.
* `bindTouches`, `executeBind` — what capture touches and what post-processing binds.
* `Follows` — the maps and the descriptors that the sets hold under the Vulkan rules.
* `AssignedAlike`, `OffsetsAgree` — the offsets that a descriptor gets, and the places they are at.
* `dynamic_offsets_alike_iff` — when all descriptors get their own offsets.
-/

namespace Lavatube
namespace DynamicOffsets

open TouchedMap RangeTracking Transition DescriptorTouch

/-! ### The two maps -/

/-- `descriptor_binding_slot` of a slot. -/
def slotKey (slot : Slot) : Nat := slot.1 * 2 ^ 32 + slot.2

/-- The layouts of the sets: their dynamic descriptors in the order of bindings and elements. -/
structure Layouts where
  device : Device
  dynamicSlots : Nat → List Slot
  ordered : ∀ set, (dynamicSlots set).Pairwise fun slot other => slotKey slot < slotKey other
  small : ∀ set, ∀ slot ∈ dynamicSlots set, slot.2 < 2 ^ 32

/-- The dynamic buffers of post-processing behind a write: null buffers are erased. -/
def postprocessWriteDescriptorSet (sets : Nat → OrderedMap Nat BufferInfo)
    (write : WriteDescriptorSet) : Nat → OrderedMap Nat BufferInfo :=
  match write.data with
  | .dynamicBuffer bufferInfo =>
      (List.range write.descriptorCount).foldl (fun sets j =>
        let slot := descriptorDynamicSlot write.dstBinding (write.dstArrayElement + j)
        let dynamicBuffers :=
          if (bufferInfo j).buffer = none then (sets write.dstSet).erase slot
          else (sets write.dstSet).insert slot (bufferInfo j)
        Function.update sets write.dstSet dynamicBuffers) sets
  | _ => sets

/-- The dynamic buffers of post-processing behind a copy. -/
def postprocessCopyDescriptorSet (sets : Nat → OrderedMap Nat BufferInfo)
    (copy : CopyDescriptorSet) : Nat → OrderedMap Nat BufferInfo :=
  (List.range copy.descriptorCount).foldl (fun sets j =>
    let srcSlot := descriptorDynamicSlot copy.srcBinding (copy.srcArrayElement + j)
    let dstSlot := descriptorDynamicSlot copy.dstBinding (copy.dstArrayElement + j)
    let dynamicBuffers :=
      match (sets copy.srcSet).find? srcSlot with
      | some info => (sets copy.dstSet).insert dstSlot info
      | none => (sets copy.dstSet).erase dstSlot
    Function.update sets copy.dstSet dynamicBuffers) sets

/-- The sets of capture, the dynamic buffers of post-processing, and the descriptors that Vulkan
keeps. -/
structure State where
  sets : Nat → DescriptorSet := fun _ => {}
  postprocess : Nat → OrderedMap Nat BufferInfo := fun _ => .empty
  held : Nat → Slot → Descriptor := fun _ _ => .other

/-- The arguments of `vkUpdateDescriptorSets`. -/
structure Update where
  writes : List WriteDescriptorSet
  copies : List CopyDescriptorSet

/-- One `vkUpdateDescriptorSets`; `none` when the tracer fails. -/
def step (layouts : Layouts) (s : State) (update : Update) : Option State :=
  (handleWriteDescriptorSets layouts.device true s.sets update.writes).map fun sets =>
    { sets := handleCopyDescriptorSets sets update.copies
      postprocess := update.copies.foldl postprocessCopyDescriptorSet
        (update.writes.foldl postprocessWriteDescriptorSet s.postprocess)
      held := update.copies.foldl (copyHeld layouts.device)
        (update.writes.foldl (writeHeld layouts.device) s.held) }

/-! ### Binding -/

/-- The touches of the dynamic buffers of one set, each with its slot. -/
def dynamicTouches (device : Device) (pDynamicOffsets : List Nat) :
    Nat → List (Nat × BufferInfo) → Option (List (Nat × Touch))
  | _, [] => some []
  | dynamicIndex, (slot, info) :: entries =>
      match info.buffer with
      | none => dynamicTouches device pDynamicOffsets (dynamicIndex + 1) entries
      | some buffer =>
          (pDynamicOffsets[dynamicIndex]?).bind fun dynamicOffset =>
            let offset := (info.offset + dynamicOffset) % 2 ^ 64
            let size := bufferRange (device.objects buffer) offset info.range
            (dynamicTouches device pDynamicOffsets (dynamicIndex + 1) entries).map fun touches =>
              (slot, ⟨buffer, offset, size⟩) :: touches

/-- The touches of the dynamic buffers in `trace_post_vkCmdBindDescriptorSets`, set by set. -/
def bindTouches (device : Device) (sets : Nat → DescriptorSet) (pDynamicOffsets : List Nat) :
    Nat → List Nat → Option (List (List (Nat × Touch)))
  | _, [] => some []
  | dynamicIndex, set :: pDescriptorSets =>
      let entries := (sets set).dynamicBuffers.entries
      (dynamicTouches device pDynamicOffsets dynamicIndex entries).bind fun touches =>
        if dynamicIndex + entries.length ≤ pDynamicOffsets.length then
          (bindTouches device sets pDynamicOffsets (dynamicIndex + entries.length)
            pDescriptorSets).map fun rest => touches :: rest
        else none

/-- `buffer_access`. -/
structure BufferAccess where
  buffer : Nat
  offset : Nat
  size : Nat
deriving DecidableEq, Repr

/-- The loop of `execute_commands` over the dynamic buffers of one set, with the index of the next
dynamic offset; a list without offsets is a null pointer, and `none` is the assertion. -/
def bindDynamic (device : Device) (pDynamicOffsets : List Nat) :
    Nat → List (Nat × BufferInfo) → Option (List (Nat × BufferAccess) × Nat)
  | dynamicOffsetIndex, [] => some ([], dynamicOffsetIndex)
  | dynamicOffsetIndex, (slot, info) :: entries =>
      match info.buffer with
      | none => bindDynamic device pDynamicOffsets dynamicOffsetIndex entries
      | some buffer =>
          let dynamicOffset :=
            if pDynamicOffsets = [] then some 0 else pDynamicOffsets[dynamicOffsetIndex]?
          dynamicOffset.bind fun dynamicOffset =>
            let offset := (info.offset + dynamicOffset) % 2 ^ 64
            let size := bufferRange (device.objects buffer) offset info.range
            (bindDynamic device pDynamicOffsets (dynamicOffsetIndex + 1) entries).map
              fun (bound, index) => ((slot, ⟨buffer, offset, size⟩) :: bound, index)

/-- The dynamic buffers that `execute_commands` binds for `VKCMDBINDDESCRIPTORSETS`, set by set. -/
def executeBind (device : Device) (sets : Nat → OrderedMap Nat BufferInfo)
    (pDynamicOffsets : List Nat) : Nat → List Nat → Option (List (List (Nat × BufferAccess)))
  | _, [] => some []
  | dynamicOffsetIndex, set :: pDescriptorSets =>
      (bindDynamic device pDynamicOffsets dynamicOffsetIndex (sets set).entries).bind
        fun (bound, index) =>
          (executeBind device sets pDynamicOffsets index pDescriptorSets).map
            fun rest => bound :: rest

/-- `bindDynamicBuffers` makes the touches of `dynamicTouches`, in this order. -/
theorem bindDynamicBuffers_eq (device : Device) (pDynamicOffsets : List Nat) (touched : Touched)
    (dynamicIndex : Nat) (entries : List (Nat × BufferInfo)) :
    bindDynamicBuffers device pDynamicOffsets (touched, dynamicIndex) entries =
      (dynamicTouches device pDynamicOffsets dynamicIndex entries).bind fun touches =>
        (touchAll device.objects touched (touches.map Prod.snd)).map fun touched =>
          (touched, dynamicIndex + entries.length) := by
  induction entries generalizing touched dynamicIndex with
  | nil => rfl
  | cons entry entries ih =>
      obtain ⟨slot, info⟩ := entry
      have hlength : dynamicIndex + 1 + entries.length = dynamicIndex + (entries.length + 1) := by
        omega
      cases hbuffer : info.buffer with
      | none =>
          simp only [bindDynamicBuffers, dynamicTouches, hbuffer, List.length_cons]
          rw [ih, hlength]
      | some buffer =>
          simp only [bindDynamicBuffers, dynamicTouches, hbuffer, List.length_cons]
          cases hoffset : pDynamicOffsets[dynamicIndex]? with
          | none => rfl
          | some dynamicOffset =>
              simp only [Option.bind_some, ih, hlength]
              cases hrest : dynamicTouches device pDynamicOffsets (dynamicIndex + 1) entries with
              | none => simp
              | some touches =>
                  simp only [Option.bind_some, Option.map_some, List.map_cons, touchAll, exec]
                  cases touch device.objects touched
                    ⟨buffer, (info.offset + dynamicOffset) % 2 ^ 64, bufferRange
                      (device.objects buffer) ((info.offset + dynamicOffset) % 2 ^ 64)
                      info.range⟩ with
                  | none => rfl
                  | some next => rfl

/-- `trace_post_vkCmdBindDescriptorSets` touches what the sets have touched, and the dynamic
buffers as `bindTouches` has them. -/
theorem postCmdBindDescriptorSets_eq (device : Device) (sets : Nat → DescriptorSet)
    (touched : Touched) (pDescriptorSets pDynamicOffsets : List Nat) :
    postCmdBindDescriptorSets device sets touched (pDescriptorSets.map some) pDynamicOffsets =
      (bindTouches device sets pDynamicOffsets 0 pDescriptorSets).bind fun touches =>
        exec (fun touched (turn : Nat × List (Nat × Touch)) =>
          touchAll device.objects (touchMerge touched (sets turn.1).touched)
            (turn.2.map Prod.snd)) touched (pDescriptorSets.zip touches) := by
  unfold postCmdBindDescriptorSets
  generalize 0 = dynamicIndex
  induction pDescriptorSets generalizing touched dynamicIndex with
  | nil => rfl
  | cons set rest ih =>
      simp only [List.map_cons, exec, bindDescriptorSet, bindTouches, bindDynamicBuffers_eq]
      cases htouches : dynamicTouches device pDynamicOffsets dynamicIndex
          (sets set).dynamicBuffers.entries with
      | none => rfl
      | some touches =>
          simp only [Option.bind_some]
          cases hall : touchAll device.objects (touchMerge touched (sets set).touched)
              (touches.map Prod.snd) with
          | none =>
              split_ifs
              · cases bindTouches device sets pDynamicOffsets _ rest with
                | none => rfl
                | some more => simp [exec, hall]
              · rfl
          | some next =>
              simp only [Option.map_some, Option.bind_some]
              split_ifs
              · simp only [ih]
                cases bindTouches device sets pDynamicOffsets _ rest with
                | none => rfl
                | some more => simp [exec, hall]
              · rfl

/-! ### The maps and the descriptors -/

/-- The buffer of a dynamic descriptor. -/
def dynamicInfo : Descriptor → Option BufferInfo
  | .dynamicBuffer info => some info
  | _ => none

/-- The slot of a key. -/
def keySlot (key : Nat) : Slot := (key / 2 ^ 32, key % 2 ^ 32)

/-- The maps have the dynamic descriptors of the sets that are kept. -/
def Follows (keep : BufferInfo → Bool) (maps : Nat → OrderedMap Nat BufferInfo)
    (held : Nat → Slot → Descriptor) : Prop :=
  ∀ set key, (maps set).find? key = (dynamicInfo (held set (keySlot key))).filter keep

/-- Capture keeps every dynamic descriptor that is written. -/
def keepAll : BufferInfo → Bool := fun _ => true

/-- Post-processing keeps those with a buffer. -/
def keepBuffers (info : BufferInfo) : Bool := info.buffer.isSome

/-- Dynamic descriptors are in the slots that the layouts have for them. -/
def Placed (layouts : Layouts) (held : Nat → Slot → Descriptor) : Prop :=
  ∀ set slot info, held set slot = .dynamicBuffer info → slot ∈ layouts.dynamicSlots set

section

variable {layouts : Layouts} {keep : BufferInfo → Bool} {set : Nat} {slot : Slot}
variable {maps : Nat → OrderedMap Nat BufferInfo} {held : Nat → Slot → Descriptor}
variable {descriptor : Descriptor} {info : BufferInfo}

theorem keySlot_slotKey (hsmall : slot.2 < 2 ^ 32) : keySlot (slotKey slot) = slot := by
  obtain ⟨binding, element⟩ := slot
  simp only [keySlot, slotKey, Prod.mk.injEq] at hsmall ⊢
  omega

theorem slotKey_keySlot (key : Nat) : slotKey (keySlot key) = key := by
  simp only [keySlot, slotKey]
  omega

theorem keySlot_eq_iff (hsmall : slot.2 < 2 ^ 32) (key : Nat) :
    keySlot key = slot ↔ key = slotKey slot := by
  constructor
  · rintro rfl
    exact (slotKey_keySlot key).symm
  · rintro rfl
    exact keySlot_slotKey hsmall

theorem descriptorDynamicSlot_eq {binding element : Nat} (hsmall : element < 2 ^ 32) :
    descriptorDynamicSlot binding element = slotKey (binding, element) := by
  rw [descriptorDynamicSlot, Nat.mod_eq_of_lt hsmall]
  rfl

/-- The map of a set behind an assignment to a slot. -/
theorem Follows.assigned (hfollows : Follows keep maps held) (hsmall : slot.2 < 2 ^ 32)
    {map : OrderedMap Nat BufferInfo}
    (hmap : ∀ key, map.find? key = if key = slotKey slot then (dynamicInfo descriptor).filter keep
      else (maps set).find? key) :
    Follows keep (Function.update maps set map) (assign held set slot descriptor) := by
  intro other key
  rw [assign_eq]
  by_cases hset : other = set
  · subst hset
    rw [Function.update_self, hmap]
    simp only [true_and, keySlot_eq_iff hsmall]
    split_ifs with hkey
    · rfl
    · exact hfollows other key
  · rw [Function.update_of_ne hset, if_neg fun h => hset h.1]
    exact hfollows other key

/-- Other descriptors in slots for other descriptors. -/
theorem Follows.assigned_other (hfollows : Follows keep maps held)
    (hnew : dynamicInfo descriptor = none) (hold : dynamicInfo (held set slot) = none) :
    Follows keep maps (assign held set slot descriptor) := by
  intro other key
  rw [assign_eq, hfollows other key]
  split_ifs with heq
  · rw [heq.1, heq.2, hnew, hold]
  · rfl

theorem Placed.assigned (hplaced : Placed layouts held)
    (hnew : ∀ info, descriptor = .dynamicBuffer info → slot ∈ layouts.dynamicSlots set) :
    Placed layouts (assign held set slot descriptor) := by
  intro other otherSlot info hheld
  rw [assign_eq] at hheld
  split_ifs at hheld with heq
  · rw [heq.1, heq.2]
    exact hnew info hheld
  · exact hplaced other otherSlot info hheld

theorem Placed.dynamicInfo_eq_none (hplaced : Placed layouts held)
    (hslot : slot ∉ layouts.dynamicSlots set) : dynamicInfo (held set slot) = none := by
  cases hheld : held set slot with
  | dynamicBuffer info => exact absurd (hplaced set slot info hheld) hslot
  | _ => rfl

end

/-! ### Updates -/

/-- The type of a write is the one of the descriptors that it goes to. -/
def WriteFits (layouts : Layouts) (write : WriteDescriptorSet) : Prop :=
  match write.data with
  | .dynamicBuffer _ =>
      ∀ j < write.descriptorCount,
        write.slot layouts.device j ∈ layouts.dynamicSlots write.dstSet
  | _ =>
      ∀ j < write.descriptorCount,
        write.slot layouts.device j ∉ layouts.dynamicSlots write.dstSet

/-- A write of dynamic descriptors does not go on in the next binding. -/
def WriteStays (layouts : Layouts) (write : WriteDescriptorSet) : Prop :=
  match write.data with
  | .dynamicBuffer _ =>
      ∀ j < write.descriptorCount,
        write.slot layouts.device j = (write.dstBinding, write.dstArrayElement + j)
  | _ => True

/-- Where the `j`-th descriptor of a copy comes from. -/
def copySource (layouts : Layouts) (copy : CopyDescriptorSet) (j : Nat) : Slot :=
  layouts.device.place copy.srcSet copy.srcBinding copy.srcArrayElement j

/-- Where the `j`-th descriptor of a copy goes to. -/
def copyTarget (layouts : Layouts) (copy : CopyDescriptorSet) (j : Nat) : Slot :=
  layouts.device.place copy.dstSet copy.dstBinding copy.dstArrayElement j

/-- A copy is one of dynamic descriptors, or neither it nor its bindings have any. -/
def CopyFits (layouts : Layouts) (copy : CopyDescriptorSet) : Prop :=
  (∀ j < copy.descriptorCount, copySource layouts copy j ∈ layouts.dynamicSlots copy.srcSet ∧
    copyTarget layouts copy j ∈ layouts.dynamicSlots copy.dstSet) ∨
  ((∀ j < copy.descriptorCount, copySource layouts copy j ∉ layouts.dynamicSlots copy.srcSet ∧
      copyTarget layouts copy j ∉ layouts.dynamicSlots copy.dstSet) ∧
    ∀ element, (copy.srcBinding, element) ∉ layouts.dynamicSlots copy.srcSet ∧
      (copy.dstBinding, element) ∉ layouts.dynamicSlots copy.dstSet)

/-- A copy of dynamic descriptors does not go on in the next binding, on either side. -/
def CopyStays (layouts : Layouts) (copy : CopyDescriptorSet) : Prop :=
  ∀ j < copy.descriptorCount, copySource layouts copy j ∈ layouts.dynamicSlots copy.srcSet →
    copySource layouts copy j = (copy.srcBinding, copy.srcArrayElement + j) ∧
      copyTarget layouts copy j = (copy.dstBinding, copy.dstArrayElement + j)

/-- Valid usage of an update. -/
structure Update.Valid (layouts : Layouts) (update : Update) : Prop where
  writes : ∀ write ∈ update.writes, WriteFits layouts write
  copies : ∀ copy ∈ update.copies, CopyFits layouts copy

/-- The dynamic descriptors of an update stay in their bindings. -/
structure Update.Stays (layouts : Layouts) (update : Update) : Prop where
  writes : ∀ write ∈ update.writes, WriteStays layouts write
  copies : ∀ copy ∈ update.copies, CopyStays layouts copy

section

variable {layouts : Layouts} {keep : BufferInfo → Bool} {write : WriteDescriptorSet}
variable {copy : CopyDescriptorSet} {held : Nat → Slot → Descriptor}
variable {maps : Nat → OrderedMap Nat BufferInfo}

/-- The assignment of one descriptor in either map: it goes in if it is kept, else the slot is
erased. -/
def assignMap (keep : BufferInfo → Bool) (map : OrderedMap Nat BufferInfo) (key : Nat)
    (info : Option BufferInfo) : OrderedMap Nat BufferInfo :=
  match info.filter keep with
  | some info => map.insert key info
  | none => map.erase key

theorem find?_assignMap (map : OrderedMap Nat BufferInfo) (key other : Nat)
    (info : Option BufferInfo) :
    (assignMap keep map key info).find? other =
      if other = key then info.filter keep else map.find? other := by
  unfold assignMap
  cases info.filter keep with
  | none => exact OrderedMap.find?_erase map key other
  | some info => exact OrderedMap.find?_insert map key other info

/-- A write, in either map. -/
def writeMaps (keep : BufferInfo → Bool) (maps : Nat → OrderedMap Nat BufferInfo)
    (write : WriteDescriptorSet) : Nat → OrderedMap Nat BufferInfo :=
  match write.data with
  | .dynamicBuffer bufferInfo =>
      (List.range write.descriptorCount).foldl (fun maps j =>
        let slot := descriptorDynamicSlot write.dstBinding (write.dstArrayElement + j)
        Function.update maps write.dstSet
          (assignMap keep (maps write.dstSet) slot (some (bufferInfo j)))) maps
  | _ => maps

/-- A copy, in either map. -/
def copyMaps (maps : Nat → OrderedMap Nat BufferInfo) (copy : CopyDescriptorSet) :
    Nat → OrderedMap Nat BufferInfo :=
  (List.range copy.descriptorCount).foldl (fun maps j =>
    let srcSlot := descriptorDynamicSlot copy.srcBinding (copy.srcArrayElement + j)
    let dstSlot := descriptorDynamicSlot copy.dstBinding (copy.dstArrayElement + j)
    Function.update maps copy.dstSet
      (assignMap keepAll (maps copy.dstSet) dstSlot ((maps copy.srcSet).find? srcSlot))) maps

theorem dynamicInfo_descriptor_of_other (hother : ∀ info, write.data ≠ .dynamicBuffer info)
    (j : Nat) : dynamicInfo (write.descriptor j) = none := by
  unfold WriteDescriptorSet.descriptor
  split
  · rfl
  · rfl
  · rfl
  · next bufferInfo hdata => exact absurd hdata (hother bufferInfo)
  · rfl
  · rfl
  · rfl

/-- **One write.** -/
theorem write_follows (hfits : WriteFits layouts write) (hstays : WriteStays layouts write)
    (hfollows : Follows keep maps held) (hplaced : Placed layouts held) :
    Follows keep (writeMaps keep maps write) (writeHeld layouts.device held write) ∧
      Placed layouts (writeHeld layouts.device held write) := by
  cases hdata : write.data with
  | dynamicBuffer bufferInfo =>
      simp only [WriteFits, WriteStays, hdata] at hfits hstays
      have hdescriptor : ∀ j, write.descriptor j = .dynamicBuffer (bufferInfo j) := fun j => by
        simp [WriteDescriptorSet.descriptor, hdata]
      simp only [writeMaps, hdata, writeHeld]
      refine List.foldl_rel
        (r := fun maps held => Follows keep maps held ∧ Placed layouts held)
        ⟨hfollows, hplaced⟩ fun j hj maps held hinv => ?_
      have hslot := hfits j (List.mem_range.mp hj)
      have hsmall := layouts.small _ _ hslot
      have hkey : descriptorDynamicSlot write.dstBinding (write.dstArrayElement + j) =
          slotKey (write.slot layouts.device j) := by
        rw [hstays j (List.mem_range.mp hj)] at hsmall ⊢
        exact descriptorDynamicSlot_eq hsmall
      constructor
      · refine hinv.1.assigned hsmall fun key => ?_
        rw [hkey, find?_assignMap, hdescriptor]
        rfl
      · exact hinv.2.assigned fun _ _ => hslot
  | _ =>
      have hother : ∀ info, write.data ≠ .dynamicBuffer info := by simp [hdata]
      simp only [WriteFits, hdata] at hfits
      simp only [writeMaps, hdata, writeHeld]
      refine List.foldlRecOn (motive := fun held => Follows keep maps held ∧ Placed layouts held)
        _ _ ⟨hfollows, hplaced⟩ fun held hinv j hj => ?_
      have hnone := dynamicInfo_descriptor_of_other hother j
      constructor
      · exact hinv.1.assigned_other hnone
          (hinv.2.dynamicInfo_eq_none (hfits j (List.mem_range.mp hj)))
      · refine hinv.2.assigned fun info hinfo => ?_
        rw [hinfo] at hnone
        cases hnone

/-- What capture and post-processing keep, both keep behind a copy. -/
theorem filter_keepAll (info : Option BufferInfo) : info.filter keepAll = info := by
  cases info with
  | none => rfl
  | some info => rfl

/-- **One copy.** -/
theorem copy_follows (hfits : CopyFits layouts copy) (hstays : CopyStays layouts copy)
    (hfollows : Follows keep maps held) (hplaced : Placed layouts held) :
    Follows keep (copyMaps maps copy) (copyHeld layouts.device held copy) ∧
      Placed layouts (copyHeld layouts.device held copy) := by
  unfold copyMaps copyHeld
  refine List.foldl_rel (r := fun maps held => Follows keep maps held ∧ Placed layouts held)
    ⟨hfollows, hplaced⟩ fun j hj maps held hinv => ?_
  have hlt := List.mem_range.mp hj
  rcases hfits with hdynamic | ⟨hother, hbindings⟩
  · -- the slots of the code are the ones of the descriptors
    obtain ⟨hsource, htarget⟩ := hdynamic j hlt
    obtain ⟨hsrc, hdst⟩ := hstays j hlt hsource
    have hsrcSmall := layouts.small _ _ hsource
    have hdstSmall := layouts.small _ _ htarget
    have hsrcKey : descriptorDynamicSlot copy.srcBinding (copy.srcArrayElement + j) =
        slotKey (copySource layouts copy j) := by
      rw [hsrc] at hsrcSmall ⊢
      exact descriptorDynamicSlot_eq hsrcSmall
    have hdstKey : descriptorDynamicSlot copy.dstBinding (copy.dstArrayElement + j) =
        slotKey (copyTarget layouts copy j) := by
      rw [hdst] at hdstSmall ⊢
      exact descriptorDynamicSlot_eq hdstSmall
    have hread := hinv.1 copy.srcSet (slotKey (copySource layouts copy j))
    rw [keySlot_slotKey hsrcSmall] at hread
    constructor
    · refine hinv.1.assigned hdstSmall fun key => ?_
      rw [hdstKey, hsrcKey, find?_assignMap, filter_keepAll, hread]
      rfl
    · exact hinv.2.assigned fun _ _ => htarget
  · -- the copy has nothing in the maps to do
    obtain ⟨hsource, htarget⟩ := hother j hlt
    have hnone : ∀ set binding element, (∀ element, (binding, element) ∉ layouts.dynamicSlots set) →
        (maps set).find? (descriptorDynamicSlot binding element) = none := by
      intro set binding element hbinding
      have hmod : element % 2 ^ 32 < 2 ^ 32 := Nat.mod_lt _ (by decide)
      have hkey : descriptorDynamicSlot binding element = slotKey (binding, element % 2 ^ 32) := by
        simp [descriptorDynamicSlot, slotKey]
      rw [hinv.1 set, hkey, keySlot_slotKey hmod,
        hinv.2.dynamicInfo_eq_none (hbinding (element % 2 ^ 32))]
      rfl
    have hmissing := hnone copy.srcSet copy.srcBinding (copy.srcArrayElement + j)
      fun element => (hbindings element).1
    have hread := hinv.2.dynamicInfo_eq_none hsource
    constructor
    · intro set key
      dsimp only
      rw [hmissing]
      refine Eq.trans ?_ ((hinv.1.assigned_other hread
        (hinv.2.dynamicInfo_eq_none htarget)) set key)
      by_cases hset : set = copy.dstSet
      · subst hset
        rw [Function.update_self, find?_assignMap]
        split_ifs with hkey
        · rw [hkey, hnone _ _ _ fun element => (hbindings element).2]
          rfl
        · rfl
      · rw [Function.update_of_ne hset]
    · refine hinv.2.assigned fun info hinfo => ?_
      unfold copySource at hread
      rw [hinfo] at hread
      cases hread

end

/-! ### Runs -/

section

variable {layouts : Layouts} {device : Device} {write : WriteDescriptorSet}
variable {writes : List WriteDescriptorSet} {copy : CopyDescriptorSet}
variable {copies : List CopyDescriptorSet} {sets next : Nat → DescriptorSet} {s s' : State}
variable {maps : Nat → OrderedMap Nat BufferInfo} {held : Nat → Slot → Descriptor}
variable {keep : BufferInfo → Bool} {update : Update}

/-- The maps of the sets of capture. -/
def traceMaps (sets : Nat → DescriptorSet) : Nat → OrderedMap Nat BufferInfo :=
  fun set => (sets set).dynamicBuffers

/-- A loop that changes one entry of a function. -/
theorem foldl_update {A B : Type*} (f : A → B → A) (maps : Nat → A) (set : Nat) (items : List B) :
    items.foldl (fun maps item => Function.update maps set (f (maps set) item)) maps =
      Function.update maps set (items.foldl f (maps set)) := by
  induction items generalizing maps with
  | nil => simp
  | cons item items ih =>
      rw [List.foldl_cons, ih]
      simp

theorem assignMap_keepAll (map : OrderedMap Nat BufferInfo) (key : Nat) (info : BufferInfo) :
    assignMap keepAll map key (some info) = map.insert key info := rfl

theorem writeDescriptorSet_maps (hwrite : writeDescriptorSet device sets write = some next) :
    traceMaps next = writeMaps keepAll (traceMaps sets) write := by
  unfold writeDescriptorSet at hwrite
  obtain ⟨touches, -, hwrite⟩ := Option.bind_eq_some_iff.mp hwrite
  obtain ⟨touched, -, rfl⟩ := Option.map_eq_some_iff.mp hwrite
  funext set
  have hself : ∀ map : OrderedMap Nat BufferInfo,
      traceMaps (Function.update sets write.dstSet ⟨touched, map⟩) set =
        Function.update (traceMaps sets) write.dstSet map set := by
    intro map
    by_cases hset : set = write.dstSet
    · subst hset
      simp [traceMaps]
    · simp [traceMaps, hset]
  rw [hself]
  unfold writeMaps WriteDescriptorSet.dynamicBuffers
  cases hdata : write.data with
  | dynamicBuffer bufferInfo =>
      simp only [assignMap_keepAll]
      rw [foldl_update (fun (map : OrderedMap Nat BufferInfo) j =>
        map.insert (descriptorDynamicSlot write.dstBinding (write.dstArrayElement + j))
          (bufferInfo j))]
      rfl
  | _ => exact congrFun (Function.update_eq_self _ _) set

theorem writeDescriptorSets_maps
    (hexec : exec (writeDescriptorSet device) sets writes = some next) :
    traceMaps next = writes.foldl (writeMaps keepAll) (traceMaps sets) := by
  induction writes generalizing sets with
  | nil =>
      cases hexec
      rfl
  | cons write writes ih =>
      obtain ⟨middle, hwrite, hrest⟩ := exec_cons_eq_some_iff.mp hexec
      rw [List.foldl_cons, ← writeDescriptorSet_maps hwrite]
      exact ih hrest

theorem traceMaps_clearWritten : traceMaps (clearWritten sets writes) = traceMaps sets := by
  funext set
  unfold traceMaps clearWritten
  split_ifs
  · rfl
  · rfl

theorem copyDescriptorSet_maps (sets : Nat → DescriptorSet) (copy : CopyDescriptorSet) :
    traceMaps (copyDescriptorSet sets copy) = copyMaps (traceMaps sets) copy := by
  have hupdate : ∀ (sets : Nat → DescriptorSet) (entry : DescriptorSet) (set : Nat),
      traceMaps (Function.update sets set entry) =
        Function.update (traceMaps sets) set entry.dynamicBuffers := by
    intro sets entry set
    funext other
    by_cases hset : other = set
    · subst hset
      simp [traceMaps]
    · simp [traceMaps, hset]
  have hstart : ∀ touched, traceMaps (Function.update sets copy.dstSet
      { sets copy.dstSet with touched := touched }) = traceMaps sets := by
    intro touched
    rw [hupdate]
    exact Function.update_eq_self _ _
  unfold copyDescriptorSet copyMaps
  dsimp only
  rw [← hstart (touchMerge (sets copy.dstSet).touched (sets copy.srcSet).touched)]
  generalize Function.update sets copy.dstSet _ = sets
  symm
  refine List.foldl_hom traceMaps fun sets j => ?_
  rw [hupdate]
  unfold assignMap
  rw [filter_keepAll]
  rfl

theorem copyDescriptorSets_maps (sets : Nat → DescriptorSet) (copies : List CopyDescriptorSet) :
    traceMaps (handleCopyDescriptorSets sets copies) = copies.foldl copyMaps (traceMaps sets) :=
  (List.foldl_hom traceMaps fun sets copy => (copyDescriptorSet_maps sets copy).symm).symm

theorem postprocessWrite_eq :
    postprocessWriteDescriptorSet maps write = writeMaps keepBuffers maps write := by
  unfold postprocessWriteDescriptorSet writeMaps
  split
  · next bufferInfo hdata =>
    congr 1
    funext maps j
    simp only
    congr 1
    cases hbuffer : (bufferInfo j).buffer with
    | none => simp [assignMap, keepBuffers, Option.filter, hbuffer]
    | some buffer => simp [assignMap, keepBuffers, Option.filter, hbuffer]
  · rfl

theorem postprocessCopy_eq :
    postprocessCopyDescriptorSet maps copy = copyMaps maps copy := by
  unfold postprocessCopyDescriptorSet copyMaps
  congr 1
  funext maps j
  simp only
  congr 1
  unfold assignMap
  rw [filter_keepAll]

theorem writes_follow (hfits : ∀ write ∈ writes, WriteFits layouts write)
    (hstays : ∀ write ∈ writes, WriteStays layouts write)
    (hfollows : Follows keep maps held) (hplaced : Placed layouts held) :
    Follows keep (writes.foldl (writeMaps keep) maps)
        (writes.foldl (writeHeld layouts.device) held) ∧
      Placed layouts (writes.foldl (writeHeld layouts.device) held) :=
  List.foldl_rel (r := fun maps held => Follows keep maps held ∧ Placed layouts held)
    ⟨hfollows, hplaced⟩ fun write hwrite _ _ hinv =>
      write_follows (hfits write hwrite) (hstays write hwrite) hinv.1 hinv.2

theorem copies_follow (hfits : ∀ copy ∈ copies, CopyFits layouts copy)
    (hstays : ∀ copy ∈ copies, CopyStays layouts copy)
    (hfollows : Follows keep maps held) (hplaced : Placed layouts held) :
    Follows keep (copies.foldl copyMaps maps)
        (copies.foldl (copyHeld layouts.device) held) ∧
      Placed layouts (copies.foldl (copyHeld layouts.device) held) :=
  List.foldl_rel (r := fun maps held => Follows keep maps held ∧ Placed layouts held)
    ⟨hfollows, hplaced⟩ fun copy hcopy _ _ hinv =>
      copy_follows (hfits copy hcopy) (hstays copy hcopy) hinv.1 hinv.2

/-- Both maps follow the descriptors of the sets. -/
structure Inv (layouts : Layouts) (s : State) : Prop where
  trace : Follows keepAll (traceMaps s.sets) s.held
  postprocess : Follows keepBuffers s.postprocess s.held
  placed : Placed layouts s.held

theorem inv_init (layouts : Layouts) : Inv layouts {} where
  trace := fun _ _ => rfl
  postprocess := fun _ _ => rfl
  placed := fun _ _ _ h => by cases h

theorem step_inv (hinv : Inv layouts s) (hvalid : update.Valid layouts)
    (hstays : update.Stays layouts) (hstep : step layouts s update = some s') :
    Inv layouts s' := by
  obtain ⟨sets, hwrites, rfl⟩ := Option.map_eq_some_iff.mp hstep
  have hsets : traceMaps sets = update.writes.foldl (writeMaps keepAll) (traceMaps s.sets) := by
    rw [writeDescriptorSets_maps hwrites, if_pos rfl, traceMaps_clearWritten]
  have hpostWrite : postprocessWriteDescriptorSet = writeMaps keepBuffers := by
    funext maps write
    exact postprocessWrite_eq
  have hpostCopy : postprocessCopyDescriptorSet = copyMaps := by
    funext maps copy
    exact postprocessCopy_eq
  have htrace := writes_follow hvalid.writes hstays.writes hinv.trace hinv.placed
  have hpost := writes_follow hvalid.writes hstays.writes hinv.postprocess hinv.placed
  constructor
  · rw [copyDescriptorSets_maps, hsets]
    exact (copies_follow hvalid.copies hstays.copies htrace.1 htrace.2).1
  · show Follows _ (update.copies.foldl postprocessCopyDescriptorSet
      (update.writes.foldl postprocessWriteDescriptorSet s.postprocess)) _
    rw [hpostWrite, hpostCopy]
    exact (copies_follow hvalid.copies hstays.copies hpost.1 hpost.2).1
  · exact (copies_follow hvalid.copies hstays.copies htrace.1 htrace.2).2

end

/-! ### The places of the offsets -/

/-- The descriptors of the sets in front of the `i`-th one, and of this one in front of the
`q`-th, that are counted. -/
def countBefore (layouts : Layouts) (counted : Nat → Slot → Bool) (pDescriptorSets : List Nat)
    (i q : Nat) : Nat :=
  ((pDescriptorSets.take i).map fun set => (layouts.dynamicSlots set).countP (counted set)).sum +
    match pDescriptorSets[i]? with
    | some set => ((layouts.dynamicSlots set).take q).countP (counted set)
    | none => 0

/-- The dynamic descriptor has been written. -/
def written (held : Nat → Slot → Descriptor) (set : Nat) (slot : Slot) : Bool :=
  (dynamicInfo (held set slot)).isSome

/-- The dynamic descriptor has a buffer. -/
def hasBuffer (held : Nat → Slot → Descriptor) (set : Nat) (slot : Slot) : Bool :=
  ((dynamicInfo (held set slot)).filter keepBuffers).isSome

/-- The position of the offset of a descriptor: the number of dynamic descriptors before it. -/
def offsetPosition (layouts : Layouts) (pDescriptorSets : List Nat) (i q : Nat) : Nat :=
  countBefore layouts (fun _ _ => true) pDescriptorSets i q

/-- The list has one range for the slot, of the buffer and from the start on. -/
def StartsAt (ranges : List (Nat × Nat × Nat)) (slot : Slot) (buffer start : Nat) : Prop :=
  ∀ other place, (slotKey slot, other, place) ∈ ranges ↔ other = buffer ∧ place = start

/-- The start of a touch. -/
def touchStart (touch : Nat × Touch) : Nat × Nat × Nat := (touch.1, touch.2.data, touch.2.offset)

/-- The start of a bound range. -/
def accessStart (access : Nat × BufferAccess) : Nat × Nat × Nat :=
  (access.1, access.2.buffer, access.2.offset)

/-- Every dynamic descriptor with a buffer is touched by capture and bound by post-processing from
its offset and the dynamic offset at its own position on. -/
def AssignedAlike (layouts : Layouts) (s : State) (pDescriptorSets pDynamicOffsets : List Nat) :
    Prop :=
  ∃ touches bound,
    bindTouches layouts.device s.sets pDynamicOffsets 0 pDescriptorSets = some touches ∧
    executeBind layouts.device s.postprocess pDynamicOffsets 0 pDescriptorSets = some bound ∧
    ∀ i q set slot info buffer, pDescriptorSets[i]? = some set →
      (layouts.dynamicSlots set)[q]? = some slot → s.held set slot = .dynamicBuffer info →
      info.buffer = some buffer →
      ∃ dynamicOffset touchesOf boundOf,
        pDynamicOffsets[offsetPosition layouts pDescriptorSets i q]? = some dynamicOffset ∧
        touches[i]? = some touchesOf ∧ bound[i]? = some boundOf ∧
        StartsAt (touchesOf.map touchStart) slot buffer ((info.offset + dynamicOffset) % 2 ^ 64) ∧
        StartsAt (boundOf.map accessStart) slot buffer ((info.offset + dynamicOffset) % 2 ^ 64)

/-- Of every dynamic descriptor with a buffer, the dynamic offset at its position is also the one
at the place that counts only written descriptors before it, and at the place that counts only
those with buffers. -/
def OffsetsAgree (layouts : Layouts) (s : State) (pDescriptorSets pDynamicOffsets : List Nat) :
    Prop :=
  ∀ (i q set : Nat) (slot : Slot), pDescriptorSets[i]? = some set →
    (layouts.dynamicSlots set)[q]? = some slot → hasBuffer s.held set slot = true →
    pDynamicOffsets[countBefore layouts (written s.held) pDescriptorSets i q]? =
        pDynamicOffsets[offsetPosition layouts pDescriptorSets i q]? ∧
      pDynamicOffsets[countBefore layouts (hasBuffer s.held) pDescriptorSets i q]? =
        pDynamicOffsets[offsetPosition layouts pDescriptorSets i q]?

section

variable {layouts : Layouts} {device : Device} {keep : BufferInfo → Bool} {s : State}
variable {maps : Nat → OrderedMap Nat BufferInfo} {held : Nat → Slot → Descriptor}
variable {pDescriptorSets pDynamicOffsets : List Nat} {entries : List (Nat × BufferInfo)}
variable {set n i q buffer : Nat} {slot : Slot} {info : BufferInfo}

/-- What a map has for a slot. -/
def entryOf (keep : BufferInfo → Bool) (held : Nat → Slot → Descriptor) (set : Nat) (slot : Slot) :
    Option (Nat × BufferInfo) :=
  ((dynamicInfo (held set slot)).filter keep).map fun info => (slotKey slot, info)

/-- The map of a set lists the dynamic descriptors of its layout that are kept, in order. -/
theorem entries_of_follows (hfollows : Follows keep maps held) (hplaced : Placed layouts held)
    (set : Nat) :
    (maps set).entries = (layouts.dynamicSlots set).filterMap (entryOf keep held set) := by
  refine OrderedMap.entries_eq ?_ fun e => ?_
  · rw [List.pairwise_filterMap]
    refine (layouts.ordered set).imp fun {slot other} hlt e he e' he' => ?_
    obtain ⟨info, -, rfl⟩ := Option.map_eq_some_iff.mp he
    obtain ⟨info', -, rfl⟩ := Option.map_eq_some_iff.mp he'
    exact hlt
  · obtain ⟨key, info⟩ := e
    rw [← OrderedMap.find?_eq_some_iff, hfollows set key, List.mem_filterMap]
    constructor
    · intro hinfo
      obtain ⟨hheld, hkeep⟩ := Option.filter_eq_some_iff.mp hinfo
      refine ⟨keySlot key, ?_, ?_⟩
      · cases hdescriptor : held set (keySlot key) with
        | dynamicBuffer other => exact hplaced set _ other hdescriptor
        | _ =>
            rw [hdescriptor] at hheld
            cases hheld
      · simp only [entryOf, hinfo, Option.map_some, slotKey_keySlot]
    · rintro ⟨slot, hslot, hentry⟩
      obtain ⟨other, hother, heq⟩ := Option.map_eq_some_iff.mp hentry
      obtain ⟨rfl, rfl⟩ := Prod.mk.inj heq
      rw [keySlot_slotKey (layouts.small set slot hslot)]
      exact hother

/-- The place of an entry counts the kept descriptors before it. -/
theorem getElem?_filterMap_take {A B : Type*} {f : A → Option B} {l : List A} {a : A} {b : B}
    (ha : l[q]? = some a) (hb : f a = some b) :
    (l.filterMap f)[(l.take q).countP fun a => (f a).isSome]? = some b := by
  obtain ⟨hlt, rfl⟩ := List.getElem?_eq_some_iff.mp ha
  rw [← List.length_filterMap_eq_countP]
  nth_rewrite 1 [← List.take_append_drop q l]
  rw [List.filterMap_append, List.getElem?_append_right le_rfl, Nat.sub_self,
    List.drop_eq_getElem_cons hlt, List.filterMap_cons_some hb, List.getElem?_cons_zero]

/-- The ranges of entries that take the offsets from the `n`-th on, one each. -/
def rangesFrom (pDynamicOffsets : List Nat) (n : Nat) (entries : List (Nat × BufferInfo)) :
    List (Nat × Nat × Nat) :=
  (entries.zipIdx n).filterMap fun entry => entry.1.2.buffer.map fun buffer =>
    (entry.1.1, buffer, (entry.1.2.offset + pDynamicOffsets.getD entry.2 0) % 2 ^ 64)

theorem dynamicTouches_ranges (device : Device) (n : Nat) (entries : List (Nat × BufferInfo))
    (hroom : n + entries.length ≤ pDynamicOffsets.length) :
    ∃ touches, dynamicTouches device pDynamicOffsets n entries = some touches ∧
      touches.map touchStart = rangesFrom pDynamicOffsets n entries := by
  induction entries generalizing n with
  | nil => exact ⟨[], rfl, rfl⟩
  | cons entry entries ih =>
      obtain ⟨slot, info⟩ := entry
      rw [List.length_cons] at hroom
      obtain ⟨touches, htouches, hstarts⟩ := ih (n + 1) (by omega)
      have hoffset : pDynamicOffsets[n]? = some (pDynamicOffsets.getD n 0) := by
        rw [List.getD_eq_getElem?_getD, List.getElem?_eq_getElem (by omega)]
        rfl
      cases hbuffer : info.buffer with
      | none =>
          refine ⟨touches, by simp [dynamicTouches, hbuffer, htouches], ?_⟩
          rw [hstarts]
          simp [rangesFrom, hbuffer]
      | some buffer =>
          let start := (info.offset + pDynamicOffsets.getD n 0) % 2 ^ 64
          refine ⟨(slot, ⟨buffer, start,
            bufferRange (device.objects buffer) start info.range⟩) :: touches, ?_, ?_⟩
          · simp only [dynamicTouches, hbuffer, hoffset, htouches, Option.bind_some,
              Option.map_some, start]
          · rw [List.map_cons, hstarts]
            simp [rangesFrom, hbuffer, touchStart, start]

theorem bindDynamic_ranges (device : Device) (n : Nat) (entries : List (Nat × BufferInfo))
    (hroom : n + entries.length ≤ pDynamicOffsets.length)
    (hbuffers : ∀ entry ∈ entries, entry.2.buffer.isSome) :
    ∃ bound, bindDynamic device pDynamicOffsets n entries = some (bound, n + entries.length) ∧
      bound.map accessStart = rangesFrom pDynamicOffsets n entries := by
  induction entries generalizing n with
  | nil => exact ⟨[], rfl, rfl⟩
  | cons entry entries ih =>
      obtain ⟨slot, info⟩ := entry
      obtain ⟨hfirst, hrest⟩ := List.forall_mem_cons.mp hbuffers
      obtain ⟨buffer, hbuffer⟩ := Option.isSome_iff_exists.mp hfirst
      simp only at hbuffer
      rw [List.length_cons] at hroom
      obtain ⟨bound, hbound, hstarts⟩ := ih (n + 1) (by omega) hrest
      have hoffset : pDynamicOffsets[n]? = some (pDynamicOffsets.getD n 0) := by
        rw [List.getD_eq_getElem?_getD, List.getElem?_eq_getElem (by omega)]
        rfl
      have hsome : pDynamicOffsets ≠ [] := by
        rintro rfl
        simp at hroom
      have hlength : n + 1 + entries.length = n + (entries.length + 1) := by omega
      let start := (info.offset + pDynamicOffsets.getD n 0) % 2 ^ 64
      refine ⟨(slot, ⟨buffer, start,
        bufferRange (device.objects buffer) start info.range⟩) :: bound, ?_, ?_⟩
      · simp only [bindDynamic, hbuffer, hsome, if_false, hoffset, hbound, Option.bind_some,
          Option.map_some, hlength, List.length_cons, start]
      · rw [List.map_cons, hstarts]
        simp [rangesFrom, accessStart, hbuffer, start]

/-- The number of entries of the sets. -/
def total (maps : Nat → OrderedMap Nat BufferInfo) (pDescriptorSets : List Nat) : Nat :=
  (pDescriptorSets.map fun set => (maps set).entries.length).sum

theorem bindTouches_ranges (device : Device) (sets : Nat → DescriptorSet)
    (pDescriptorSets : List Nat) (n : Nat)
    (hroom : n + total (traceMaps sets) pDescriptorSets ≤ pDynamicOffsets.length) :
    ∃ touches, bindTouches device sets pDynamicOffsets n pDescriptorSets = some touches ∧
      ∀ (i set : Nat), pDescriptorSets[i]? = some set → ∃ touchesOf, touches[i]? = some touchesOf ∧
        touchesOf.map touchStart = rangesFrom pDynamicOffsets
          (n + total (traceMaps sets) (pDescriptorSets.take i)) (traceMaps sets set).entries := by
  induction pDescriptorSets generalizing n with
  | nil => exact ⟨[], rfl, fun i set h => by simp at h⟩
  | cons first rest ih =>
      have hsplit : total (traceMaps sets) (first :: rest) =
          (traceMaps sets first).entries.length + total (traceMaps sets) rest := rfl
      rw [hsplit] at hroom
      obtain ⟨here, hhere, hstarts⟩ := dynamicTouches_ranges device n
        (traceMaps sets first).entries (show _ ≤ pDynamicOffsets.length by omega)
      obtain ⟨more, hmore, hrest⟩ := ih (n + (traceMaps sets first).entries.length) (by omega)
      refine ⟨here :: more, ?_, fun i set hset => ?_⟩
      · have hfits : n + (sets first).dynamicBuffers.entries.length ≤ pDynamicOffsets.length := by
          have : (sets first).dynamicBuffers.entries.length =
            (traceMaps sets first).entries.length := rfl
          omega
        rw [bindTouches]
        simp only [show dynamicTouches device pDynamicOffsets n
          (sets first).dynamicBuffers.entries = some here from hhere, Option.bind_some,
          if_pos hfits]
        rw [show bindTouches device sets pDynamicOffsets
          (n + (sets first).dynamicBuffers.entries.length) rest = some more from hmore]
        rfl
      · cases i with
        | zero =>
            obtain rfl : first = set := by simpa using hset
            exact ⟨here, rfl, by simpa [total] using hstarts⟩
        | succ i =>
            obtain ⟨touchesOf, htouches, hof⟩ := hrest i set (by simpa using hset)
            refine ⟨touchesOf, by simpa using htouches, ?_⟩
            rw [hof, List.take_succ_cons, show total (traceMaps sets) (first :: rest.take i) =
              (traceMaps sets first).entries.length + total (traceMaps sets) (rest.take i) from rfl,
              Nat.add_assoc]

theorem executeBind_ranges (device : Device) (pDescriptorSets : List Nat) (n : Nat)
    (hroom : n + total maps pDescriptorSets ≤ pDynamicOffsets.length)
    (hbuffers : ∀ set, ∀ entry ∈ (maps set).entries, entry.2.buffer.isSome) :
    ∃ bound, executeBind device maps pDynamicOffsets n pDescriptorSets = some bound ∧
      ∀ (i set : Nat), pDescriptorSets[i]? = some set → ∃ boundOf, bound[i]? = some boundOf ∧
        boundOf.map accessStart = rangesFrom pDynamicOffsets
          (n + total maps (pDescriptorSets.take i)) (maps set).entries := by
  induction pDescriptorSets generalizing n with
  | nil => exact ⟨[], rfl, fun i set h => by simp at h⟩
  | cons first rest ih =>
      have hsplit : total maps (first :: rest) =
          (maps first).entries.length + total maps rest := rfl
      rw [hsplit] at hroom
      obtain ⟨here, hhere, hstarts⟩ := bindDynamic_ranges device n (maps first).entries
        (show _ ≤ pDynamicOffsets.length by omega) (hbuffers first)
      obtain ⟨more, hmore, hrest⟩ := ih (n + (maps first).entries.length) (by omega)
      refine ⟨here :: more, ?_, fun i set hset => ?_⟩
      · simp only [executeBind, hhere, Option.bind_some, hmore, Option.map_some]
      · cases i with
        | zero =>
            obtain rfl : first = set := by simpa using hset
            exact ⟨here, rfl, by simpa [total] using hstarts⟩
        | succ i =>
            obtain ⟨boundOf, hbound, hof⟩ := hrest i set (by simpa using hset)
            refine ⟨boundOf, by simpa using hbound, ?_⟩
            rw [hof, List.take_succ_cons, show total maps (first :: rest.take i) =
              (maps first).entries.length + total maps (rest.take i) from rfl, Nat.add_assoc]

theorem mem_rangesFrom {key other place : Nat} :
    (key, other, place) ∈ rangesFrom pDynamicOffsets n entries ↔
      ∃ k info, entries[k]? = some (key, info) ∧ info.buffer = some other ∧
        place = (info.offset + pDynamicOffsets.getD (n + k) 0) % 2 ^ 64 := by
  unfold rangesFrom
  rw [List.mem_filterMap]
  constructor
  · rintro ⟨⟨⟨key', info⟩, m⟩, hmem, hrange⟩
    obtain ⟨hle, hlt, hentry⟩ := List.mem_zipIdx hmem
    obtain ⟨buffer, hbuffer, heq⟩ := Option.map_eq_some_iff.mp hrange
    simp only [Prod.mk.injEq] at heq
    obtain ⟨rfl, rfl, rfl⟩ := heq
    refine ⟨m - n, info, ?_, hbuffer, ?_⟩
    · rw [List.getElem?_eq_getElem (by omega), ← hentry]
    · rw [Nat.add_sub_cancel' hle]
  · rintro ⟨k, info, hentry, hbuffer, rfl⟩
    refine ⟨((key, info), n + k), ?_, by simp [hbuffer]⟩
    rw [List.mem_zipIdx_iff_le_and_getElem?_sub]
    exact ⟨Nat.le_add_right n k, by rw [Nat.add_sub_cancel_left]; exact hentry⟩

/-- The range of an entry, which is the only one of its slot. -/
theorem startsAt_rangesFrom_iff {k start : Nat}
    (hsorted : entries.Pairwise fun e e' => e.1 < e'.1)
    (hentry : entries[k]? = some (slotKey slot, info)) (hbuffer : info.buffer = some buffer) :
    StartsAt (rangesFrom pDynamicOffsets n entries) slot buffer start ↔
      (info.offset + pDynamicOffsets.getD (n + k) 0) % 2 ^ 64 = start := by
  have hself : ∀ other place, (slotKey slot, other, place) ∈
      rangesFrom pDynamicOffsets n entries ↔ other = buffer ∧
        place = (info.offset + pDynamicOffsets.getD (n + k) 0) % 2 ^ 64 := by
    intro other place
    rw [mem_rangesFrom]
    constructor
    · rintro ⟨k', info', hentry', hbuffer', rfl⟩
      obtain ⟨hlt, hk⟩ := List.getElem?_eq_some_iff.mp hentry
      obtain ⟨hlt', hk'⟩ := List.getElem?_eq_some_iff.mp hentry'
      -- the keys go up, so there is one entry with the key
      have hsame : k' = k := by
        rcases Nat.lt_trichotomy k' k with h | h | h
        · have hkeys := List.pairwise_iff_getElem.mp hsorted k' k hlt' hlt h
          rw [hk, hk'] at hkeys
          exact absurd hkeys (lt_irrefl _)
        · exact h
        · have hkeys := List.pairwise_iff_getElem.mp hsorted k k' hlt hlt' h
          rw [hk, hk'] at hkeys
          exact absurd hkeys (lt_irrefl _)
      subst hsame
      cases hentry.symm.trans hentry'
      exact ⟨Option.some_inj.mp (hbuffer'.symm.trans hbuffer), rfl⟩
    · rintro ⟨rfl, rfl⟩
      exact ⟨k, info, hentry, hbuffer, rfl⟩
  constructor
  · intro hstarts
    exact ((hstarts buffer _).mp ((hself buffer _).mpr ⟨rfl, rfl⟩)).2
  · rintro rfl other place
    exact hself other place

/-- The number of entries of a set is the number of descriptors that are kept. -/
theorem length_entries (hfollows : Follows keep maps held) (hplaced : Placed layouts held)
    (set : Nat) : (maps set).entries.length = (layouts.dynamicSlots set).countP
      fun slot => ((dynamicInfo (held set slot)).filter keep).isSome := by
  rw [entries_of_follows hfollows hplaced, List.length_filterMap_eq_countP]
  simp [entryOf]

theorem total_take (hfollows : Follows keep maps held) (hplaced : Placed layouts held)
    (hset : pDescriptorSets[i]? = some set) :
    total maps (pDescriptorSets.take i) + ((layouts.dynamicSlots set).take q).countP
        (fun slot => ((dynamicInfo (held set slot)).filter keep).isSome) =
      countBefore layouts (fun set slot => ((dynamicInfo (held set slot)).filter keep).isSome)
        pDescriptorSets i q := by
  unfold total countBefore
  simp only [hset, length_entries hfollows hplaced]

/-- Counting less comes to less. -/
theorem countBefore_le (counted : Nat → Slot → Bool) :
    countBefore layouts counted pDescriptorSets i q ≤
      offsetPosition layouts pDescriptorSets i q := by
  unfold offsetPosition countBefore
  refine Nat.add_le_add (List.sum_le_sum fun set _ => ?_) ?_
  · exact List.countP_mono_left fun _ _ _ => rfl
  · split
    · exact List.countP_mono_left fun _ _ _ => rfl
    · exact le_rfl

/-- The position of a descriptor is one of the list. -/
theorem offsetPosition_lt (hset : pDescriptorSets[i]? = some set)
    (hslot : (layouts.dynamicSlots set)[q]? = some slot) :
    offsetPosition layouts pDescriptorSets i q <
      (pDescriptorSets.map fun set => (layouts.dynamicSlots set).length).sum := by
  obtain ⟨hi, rfl⟩ := List.getElem?_eq_some_iff.mp hset
  have hq := (List.getElem?_eq_some_iff.mp hslot).1
  have hsplit : pDescriptorSets = pDescriptorSets.take i ++
      pDescriptorSets[i] :: pDescriptorSets.drop (i + 1) := by
    rw [← List.drop_eq_getElem_cons hi, List.take_append_drop]
  unfold offsetPosition countBefore
  rw [hset]
  conv_rhs => rw [hsplit]
  simp only [List.countP_true, List.map_append, List.map_cons, List.sum_append, List.sum_cons,
    List.length_take]
  omega

theorem total_le (hfollows : Follows keep maps held) (hplaced : Placed layouts held)
    (pDescriptorSets : List Nat) : total maps pDescriptorSets ≤
      (pDescriptorSets.map fun set => (layouts.dynamicSlots set).length).sum := by
  refine List.sum_le_sum fun set _ => ?_
  rw [length_entries hfollows hplaced]
  exact List.countP_le_length

/-- A descriptor gets its own offset from a map, if the one at the place that the map counts is
the same. -/
theorem startsAt_own_iff {dynamicOffset : Nat} (hfollows : Follows keep maps held)
    (hplaced : Placed layouts held) (hset : pDescriptorSets[i]? = some set)
    (hslot : (layouts.dynamicSlots set)[q]? = some slot)
    (hinfo : held set slot = .dynamicBuffer info) (hkeep : keep info = true)
    (hbuffer : info.buffer = some buffer) (hoffsets : ∀ offset ∈ pDynamicOffsets, offset < 2 ^ 32)
    (hcount : (pDescriptorSets.map fun set => (layouts.dynamicSlots set).length).sum ≤
      pDynamicOffsets.length)
    (hown : pDynamicOffsets[offsetPosition layouts pDescriptorSets i q]? = some dynamicOffset) :
    StartsAt (rangesFrom pDynamicOffsets (0 + total maps (pDescriptorSets.take i))
        (maps set).entries) slot buffer ((info.offset + dynamicOffset) % 2 ^ 64) ↔
      pDynamicOffsets[countBefore layouts
        (fun set slot => ((dynamicInfo (held set slot)).filter keep).isSome) pDescriptorSets i q]? =
          some dynamicOffset := by
  have hkept : entryOf keep held set slot = some (slotKey slot, info) := by
    simp [entryOf, hinfo, dynamicInfo, Option.filter, hkeep]
  have hentry := getElem?_filterMap_take hslot hkept
  rw [← entries_of_follows hfollows hplaced] at hentry
  have hplace := total_take (q := q) hfollows hplaced hset
  have hlt : countBefore layouts
      (fun set slot => ((dynamicInfo (held set slot)).filter keep).isSome) pDescriptorSets i q <
        pDynamicOffsets.length :=
    lt_of_le_of_lt (countBefore_le _) (lt_of_lt_of_le (offsetPosition_lt hset hslot) hcount)
  have hread : pDynamicOffsets[countBefore layouts
      (fun set slot => ((dynamicInfo (held set slot)).filter keep).isSome) pDescriptorSets i q]? =
        some (pDynamicOffsets.getD (countBefore layouts
          (fun set slot => ((dynamicInfo (held set slot)).filter keep).isSome)
            pDescriptorSets i q) 0) := by
    rw [List.getD_eq_getElem?_getD, List.getElem?_eq_getElem hlt]
    rfl
  have hsmall := hoffsets _ (List.mem_of_getElem? hread)
  have hownSmall := hoffsets _ (List.mem_of_getElem? hown)
  simp only [entryOf, Option.isSome_map] at hentry
  rw [startsAt_rangesFrom_iff (maps set).sorted hentry hbuffer, Nat.zero_add, hplace, hread,
    Option.some_inj]
  constructor
  · intro hstart
    omega
  · intro hsame
    rw [hsame]

/-- A dynamic descriptor that has a buffer. -/
theorem hasBuffer_iff : hasBuffer held set slot = true ↔
    ∃ info buffer, held set slot = .dynamicBuffer info ∧ info.buffer = some buffer := by
  unfold hasBuffer
  constructor
  · intro hhas
    obtain ⟨info, hinfo⟩ := Option.isSome_iff_exists.mp hhas
    obtain ⟨hdynamic, hkeep⟩ := Option.filter_eq_some_iff.mp hinfo
    obtain ⟨buffer, hbuffer⟩ := Option.isSome_iff_exists.mp hkeep
    cases hheld : held set slot with
    | dynamicBuffer other =>
        rw [hheld] at hdynamic
        cases hdynamic
        exact ⟨info, buffer, rfl, hbuffer⟩
    | _ =>
        rw [hheld] at hdynamic
        cases hdynamic
  · rintro ⟨info, buffer, hheld, hbuffer⟩
    simp [hheld, dynamicInfo, Option.filter, keepBuffers, hbuffer]

/-- Both sides of a bind, descriptor by descriptor. -/
theorem bind_ranges (hinv : Inv layouts s)
    (hoffsets : ∀ offset ∈ pDynamicOffsets, offset < 2 ^ 32)
    (hcount : pDynamicOffsets.length =
      (pDescriptorSets.map fun set => (layouts.dynamicSlots set).length).sum) :
    ∃ touches bound,
      bindTouches layouts.device s.sets pDynamicOffsets 0 pDescriptorSets = some touches ∧
      executeBind layouts.device s.postprocess pDynamicOffsets 0 pDescriptorSets = some bound ∧
      ∀ (i q set : Nat) (slot : Slot) (info : BufferInfo) (buffer dynamicOffset : Nat),
        pDescriptorSets[i]? = some set → (layouts.dynamicSlots set)[q]? = some slot →
        s.held set slot = .dynamicBuffer info → info.buffer = some buffer →
        pDynamicOffsets[offsetPosition layouts pDescriptorSets i q]? = some dynamicOffset →
        ∃ touchesOf boundOf, touches[i]? = some touchesOf ∧ bound[i]? = some boundOf ∧
          (StartsAt (touchesOf.map touchStart) slot buffer
              ((info.offset + dynamicOffset) % 2 ^ 64) ↔
            pDynamicOffsets[countBefore layouts (written s.held) pDescriptorSets i q]? =
              some dynamicOffset) ∧
          (StartsAt (boundOf.map accessStart) slot buffer
              ((info.offset + dynamicOffset) % 2 ^ 64) ↔
            pDynamicOffsets[countBefore layouts (hasBuffer s.held) pDescriptorSets i q]? =
              some dynamicOffset) := by
  have hroom := total_le hinv.trace hinv.placed pDescriptorSets
  have hpostRoom := total_le hinv.postprocess hinv.placed pDescriptorSets
  have hbuffers : ∀ set, ∀ entry ∈ (s.postprocess set).entries, entry.2.buffer.isSome := by
    intro set entry hentry
    rw [entries_of_follows hinv.postprocess hinv.placed] at hentry
    obtain ⟨slot, -, hslot⟩ := List.mem_filterMap.mp hentry
    obtain ⟨info, hinfo, rfl⟩ := Option.map_eq_some_iff.mp hslot
    exact (Option.filter_eq_some_iff.mp hinfo).2
  have hwritten : (fun set slot =>
      ((dynamicInfo (s.held set slot)).filter keepAll).isSome) = written s.held := by
    funext set slot
    rw [filter_keepAll]
    rfl
  have hzero : 0 + total (traceMaps s.sets) pDescriptorSets ≤ pDynamicOffsets.length := by omega
  have hpostZero : 0 + total s.postprocess pDescriptorSets ≤ pDynamicOffsets.length := by omega
  obtain ⟨touches, htouches, htouchesOf⟩ :=
    bindTouches_ranges layouts.device s.sets pDescriptorSets 0 hzero
  obtain ⟨bound, hbound, hboundOf⟩ :=
    executeBind_ranges layouts.device pDescriptorSets 0 hpostZero hbuffers
  refine ⟨touches, bound, htouches, hbound, ?_⟩
  intro i q set slot info buffer dynamicOffset hset hslot hinfo hbuffer hown
  obtain ⟨touchesOf, htouchesI, hstarts⟩ := htouchesOf i set hset
  obtain ⟨boundOf, hboundI, hpostStarts⟩ := hboundOf i set hset
  refine ⟨touchesOf, boundOf, htouchesI, hboundI, ?_, ?_⟩
  · rw [hstarts, ← hwritten]
    exact startsAt_own_iff hinv.trace hinv.placed hset hslot hinfo rfl hbuffer hoffsets hcount.ge
      hown
  · rw [hpostStarts]
    exact startsAt_own_iff hinv.postprocess hinv.placed hset hslot hinfo
      (by simp [keepBuffers, hbuffer]) hbuffer hoffsets hcount.ge hown

/-- **Dynamic offsets.**  After any updates that stay in their bindings, the descriptors of a bind
get their own offsets on both sides exactly if the offsets at the places that are counted agree
with those at their own positions. -/
theorem dynamic_offsets_alike_iff {updates : List Update}
    (hvalid : ∀ update ∈ updates, update.Valid layouts)
    (hstays : ∀ update ∈ updates, update.Stays layouts)
    (hexec : exec (step layouts) {} updates = some s)
    (hoffsets : ∀ offset ∈ pDynamicOffsets, offset < 2 ^ 32)
    (hcount : pDynamicOffsets.length =
      (pDescriptorSets.map fun set => (layouts.dynamicSlots set).length).sum) :
    AssignedAlike layouts s pDescriptorSets pDynamicOffsets ↔
      OffsetsAgree layouts s pDescriptorSets pDynamicOffsets := by
  have halong : Along (step layouts)
      (fun _ update => update.Valid layouts ∧ update.Stays layouts) {} updates :=
    along_of_forall fun update hupdate => ⟨hvalid update hupdate, hstays update hupdate⟩
  have hinv : Inv layouts s :=
    exec_invariant (fun _ _ _ hinv hcond => step_inv hinv hcond.1 hcond.2) (inv_init layouts)
      halong hexec
  obtain ⟨touches, bound, htouches, hbound, hboth⟩ := bind_ranges hinv hoffsets hcount
  constructor
  · rintro ⟨touches', bound', htouches', hbound', hall⟩ i q set slot hset hslot hhas
    cases htouches.symm.trans htouches'
    cases hbound.symm.trans hbound'
    obtain ⟨info, buffer, hinfo, hbuffer⟩ := hasBuffer_iff.mp hhas
    obtain ⟨dynamicOffset, touchesOf', boundOf', hown, htouchesI', hboundI', hstarts,
      hpostStarts⟩ := hall i q set slot info buffer hset hslot hinfo hbuffer
    obtain ⟨touchesOf, boundOf, htouchesI, hboundI, hiff, hpostIff⟩ :=
      hboth i q set slot info buffer dynamicOffset hset hslot hinfo hbuffer hown
    cases htouchesI.symm.trans htouchesI'
    cases hboundI.symm.trans hboundI'
    rw [hown]
    exact ⟨hiff.mp hstarts, hpostIff.mp hpostStarts⟩
  · intro hagree
    refine ⟨touches, bound, htouches, hbound, ?_⟩
    intro i q set slot info buffer hset hslot hinfo hbuffer
    have hlt : offsetPosition layouts pDescriptorSets i q < pDynamicOffsets.length := by
      rw [hcount]
      exact offsetPosition_lt hset hslot
    have hown := List.getElem?_eq_getElem hlt
    obtain ⟨htrace, hpost⟩ :=
      hagree i q set slot hset hslot (hasBuffer_iff.mpr ⟨info, buffer, hinfo, hbuffer⟩)
    obtain ⟨touchesOf, boundOf, htouchesI, hboundI, hiff, hpostIff⟩ :=
      hboth i q set slot info buffer _ hset hslot hinfo hbuffer hown
    exact ⟨_, touchesOf, boundOf, hown, htouchesI, hboundI, hiff.mpr (htrace.trans hown),
      hpostIff.mpr (hpost.trans hown)⟩

end

/-- Every set has one binding of two dynamic buffers. -/
def twoDynamic : Layouts where
  device := visible
  dynamicSlots := fun _ => [(0, 0), (0, 1)]
  ordered := fun _ => by decide
  small := fun _ => by decide

/-- An update that writes both buffers of set 0. -/
def writeBoth (bufferInfo : Nat → BufferInfo) : Update :=
  ⟨[⟨0, 0, 0, 2, .dynamicBuffer bufferInfo⟩], []⟩

theorem writeBoth_valid (bufferInfo : Nat → BufferInfo) :
    (writeBoth bufferInfo).Valid twoDynamic := by
  constructor
  · intro write hwrite
    obtain rfl := List.mem_singleton.mp hwrite
    show ∀ j < 2, ((0, 0 + j) : Slot) ∈ [(0, 0), (0, 1)]
    decide
  · intro copy hcopy
    cases hcopy

theorem writeBoth_stays (bufferInfo : Nat → BufferInfo) :
    (writeBoth bufferInfo).Stays twoDynamic := by
  constructor
  · intro write hwrite
    obtain rfl := List.mem_singleton.mp hwrite
    intro j _
    rfl
  · intro copy hcopy
    cases hcopy

/-- Two buffers, with 16 bytes each. -/
def bothThere (j : Nat) : BufferInfo := ⟨some (5 + j), 0, 16⟩

theorem dynamic_offsets_alike_both :
    ∃ s, exec (step twoDynamic) {} [writeBoth bothThere] = some s ∧
      AssignedAlike twoDynamic s [0] [16, 32] := by
  have hvalid : ∀ update ∈ [writeBoth bothThere], update.Valid twoDynamic :=
    List.forall_mem_singleton.mpr (writeBoth_valid bothThere)
  have hstays : ∀ update ∈ [writeBoth bothThere], update.Stays twoDynamic :=
    List.forall_mem_singleton.mpr (writeBoth_stays bothThere)
  refine ⟨_, rfl, (dynamic_offsets_alike_iff hvalid hstays rfl (by decide) rfl).mpr ?_⟩
  intro i q set slot hset hslot _
  obtain ⟨rfl, rfl⟩ : i = 0 ∧ set = 0 := by
    cases i with
    | zero => exact ⟨rfl, (Option.some.inj hset).symm⟩
    | succ i => cases hset
  match q, hslot with
  | 0, _ => exact ⟨rfl, rfl⟩
  | 1, _ => exact ⟨rfl, rfl⟩

/-- The first buffer is null. -/
def firstNull (j : Nat) : BufferInfo := ⟨if j = 0 then none else some 5, 0, 16⟩

/-- Post-processing takes the first offset for the second descriptor. -/
theorem null_shifts_offsets :
    ¬ ∀ (layouts : Layouts) (updates : List Update) (s : State)
      (pDescriptorSets pDynamicOffsets : List Nat),
      (∀ update ∈ updates, update.Valid layouts ∧ update.Stays layouts) →
      exec (step layouts) {} updates = some s → (∀ offset ∈ pDynamicOffsets, offset < 2 ^ 32) →
      pDynamicOffsets.length =
        (pDescriptorSets.map fun set => (layouts.dynamicSlots set).length).sum →
      AssignedAlike layouts s pDescriptorSets pDynamicOffsets := by
  intro hall
  obtain ⟨touches, bound, -, hbound, hstarts⟩ := hall twoDynamic [writeBoth firstNull] _ [0]
    [16, 32] (List.forall_mem_singleton.mpr ⟨writeBoth_valid _, writeBoth_stays _⟩) rfl
    (by decide) rfl
  obtain ⟨dynamicOffset, touchesOf, boundOf, hown, -, hboundOf, -, hpost⟩ :=
    hstarts 0 1 0 (0, 1) ⟨some 5, 0, 16⟩ 5 rfl rfl rfl rfl
  cases hbound
  cases hboundOf
  obtain rfl : 32 = dynamicOffset := Option.some.inj hown
  have hmem := (hpost 5 16).mp (List.mem_singleton_self _)
  exact absurd hmem.2 (by decide)

end DynamicOffsets
end Lavatube
