import Lavatube.DeviceAddressRanges
import Lavatube.TemplateData

/-!
# Bindings in descriptor buffers

In a descriptor buffer, descriptors are opaque bytes.  When a shader is simulated, the descriptors
of a binding are told from the bytes that the driver returned for them before: those that are found
in the memory of the buffer.  The stride of an array is guessed.

* `findDescriptorBufferResource` — the descriptor at a place.
* `resolveDescriptorBufferBinding` — the descriptors of a binding.
* `Resolved` — what a result should be.
* `IsArray`, `PayloadsFit` — a stride at which descriptors are found; whether they leave room for
  each other.
* `resolve_binding_iff` — when the result is right.
-/

namespace Lavatube
namespace DescriptorBindings

open ByteMemory AddressRemapper DeviceAddressRanges
open TemplateData (DescriptorType)

/-! ### The simulation -/

/-- `descriptor_rewrite`, as far as it is searched for. -/
structure DescriptorRewrite where
  type : DescriptorType
  captureBytes : List UInt8
  short : captureBytes.length < 2 ^ 64
  hasBufferAddressInfo : Bool
  bufferAddress : UInt64
  bufferRange : UInt64
  bufferFormat : UInt32
deriving DecidableEq

/-- `capture_bytes.size()`. -/
def DescriptorRewrite.size (payload : DescriptorRewrite) : UInt64 :=
  UInt64.ofNat payload.captureBytes.length

/-- `command_execution_data` with the pending descriptors, and which buffers are mapped. -/
structure BindingData extends ExecutionData where
  pendingDescriptorRewrites : List DescriptorRewrite
  isMapped : Pointer → Bool

/-- `buffer_access`. -/
structure BufferAccess where
  bufferData : Option Pointer := none
  offset : UInt64 := 0
  size : UInt64 := 0
deriving DecidableEq, Repr

/-- `image_access`. -/
structure ImageAccess where
  imageData : Option Pointer
  layout : UInt32
deriving DecidableEq, Repr

/-- `simulator_binding`. -/
structure SimulatorBinding where
  descriptorType : DescriptorType := .maxEnum
  descriptorBufferBacked : Bool := false
  buffers : List BufferAccess := []
  images : List ImageAccess := []
  opaques : List UInt64 := []
deriving DecidableEq

/-- What `resolve_descriptor_buffer_binding` is given to fill in. -/
structure Outputs where
  dst : SimulatorBinding
  resolvedType : DescriptorType
  descriptorOffsets : List UInt64
  descriptorTypes : List DescriptorType
deriving DecidableEq

section

variable (data : BindingData)

/-- `descriptor_rewrite_matches_slot`; the slot is a place in a memory. -/
def descriptorRewriteMatchesSlot (payload : DescriptorRewrite) (layoutType : DescriptorType)
    (mem : Memory) (descriptor available : Nat) : Bool :=
  if payload.hasBufferAddressInfo = false ∨ payload.captureBytes = [] then false
  else if layoutType ≠ .mutable ∧ payload.type ≠ layoutType then false
  else if payload.captureBytes.length > available then false
  else slice mem descriptor payload.captureBytes.length == payload.captureBytes

/-- `same_descriptor_resource`. -/
def sameDescriptorResource (a b : DescriptorRewrite) : Bool :=
  a.bufferAddress == b.bufferAddress && a.bufferRange == b.bufferRange &&
    a.bufferFormat == b.bufferFormat

/-- The loop of `find_descriptor_buffer_resource`; the outer `none` is an abort. -/
def findLoop (layoutType : DescriptorType) (mem : Memory) (descriptor available : Nat) :
    Option DescriptorRewrite → List DescriptorRewrite → Option (Option DescriptorRewrite)
  | found, [] => some found
  | found, payload :: rest =>
      if descriptorRewriteMatchesSlot payload layoutType mem descriptor available then
        match found with
        | some other =>
            if sameDescriptorResource other payload then
              findLoop layoutType mem descriptor available (some payload) rest
            else none
        | none => findLoop layoutType mem descriptor available (some payload) rest
      else findLoop layoutType mem descriptor available found rest

/-- `find_descriptor_buffer_resource`; the outer `none` is an abort. -/
def findDescriptorBufferResource (descriptorBuffer : Option Pointer) (descriptorOffset : UInt64)
    (layoutType : DescriptorType) : Option (Option DescriptorRewrite) :=
  match descriptorBuffer with
  | none => some none
  | some obj =>
      if descriptorOffset.toNat ≥ (data.heap obj).size ∨ data.isMapped obj = false then some none
      else
        findLoop layoutType (data.mapped obj) descriptorOffset.toNat
          ((data.heap obj).size - descriptorOffset.toNat) none data.pendingDescriptorRewrites

/-- `VK_WHOLE_SIZE`. -/
def wholeSize : UInt64 := 0xffffffffffffffff

/-- `resolve_descriptor_buffer_resource`: the access and the type; the outer `none` is an abort, and
the inner one the result `false`. -/
def resolveDescriptorBufferResource (descriptorBuffer : Option Pointer)
    (descriptorOffset : UInt64) (layoutType : DescriptorType) :
    Option (Option (BufferAccess × DescriptorType)) :=
  (findDescriptorBufferResource data descriptorBuffer descriptorOffset layoutType).bind fun
    | none => some none
    | some payload =>
        if payload.bufferAddress = 0 then some (some ({}, payload.type))
        else
          let requiredSize := if payload.bufferRange = wholeSize then 1 else payload.bufferRange
          (mapDeviceAddressRange data.toExecutionData payload.bufferAddress requiredSize).map
            fun mapping =>
              let range := if payload.bufferRange = wholeSize
                then UInt64.ofNat (data.heap mapping.bufferData).size - mapping.bufferOffset
                else payload.bufferRange
              some (⟨some mapping.bufferData, mapping.bufferOffset, range⟩, payload.type)

/-- The place of an element. -/
def elementOffset (descriptorOffset stride : UInt64) (i : Nat) : UInt64 :=
  descriptorOffset + stride * UInt64.ofNat i

/-- The inner loop of the search for a stride, over the elements behind the first. -/
def elementsMatch (descriptorBuffer : Option Pointer) (descriptorOffset : UInt64)
    (layoutType : DescriptorType) (stride : UInt64) : List Nat → Option Bool
  | [] => some true
  | i :: rest =>
      (findDescriptorBufferResource data descriptorBuffer (elementOffset descriptorOffset stride i)
        layoutType).bind fun
        | none => some false
        | some _ => elementsMatch descriptorBuffer descriptorOffset layoutType stride rest

/-- The loop over the possible strides; the outer `none` is an abort, and the inner one the result
`false`. -/
def candidateLoop (descriptorBuffer : Option Pointer) (descriptorOffset : UInt64)
    (layoutType : DescriptorType) (stride maxStride : UInt64) (elements : List Nat) :
    UInt64 → List UInt64 → Option (Option UInt64)
  | candidateStride, [] => some (some candidateStride)
  | candidateStride, possibleStride :: rest =>
      if possibleStride < stride ∨ possibleStride > maxStride then
        candidateLoop descriptorBuffer descriptorOffset layoutType stride maxStride elements
          candidateStride rest
      else
        (elementsMatch data descriptorBuffer descriptorOffset layoutType possibleStride
          elements).bind fun found =>
          if found = false then
            candidateLoop descriptorBuffer descriptorOffset layoutType stride maxStride elements
              candidateStride rest
          else if candidateStride ≠ 0 then some none
          else
            candidateLoop descriptorBuffer descriptorOffset layoutType stride maxStride elements
              possibleStride rest

/-- The possible strides of a mutable array, sorted and without repeats. -/
def possibleStrides (stride bindingSpan : UInt64) (descriptorCount : UInt32) : List UInt64 :=
  let sizes := (data.pendingDescriptorRewrites.filter fun payload =>
    payload.hasBufferAddressInfo && payload.captureBytes ≠ []).map DescriptorRewrite.size
  let count := UInt64.ofNat descriptorCount.toNat
  let even := if bindingSpan % count = 0 then [bindingSpan / count] else []
  ((stride :: sizes ++ even).insertionSort (· ≤ ·)).dedup

/-- The largest stride at which the last element starts in the binding. -/
def maxStride (descriptorOffset bindingEnd : UInt64) (descriptorCount : UInt32) : UInt64 :=
  (bindingEnd - descriptorOffset - 1) / UInt64.ofNat (descriptorCount.toNat - 1)

/-- The stride; the outer `none` is an abort, and the inner one the result `false`. -/
def findStride (descriptorBuffer : Option Pointer) (descriptorOffset bindingEnd : UInt64)
    (layoutType : DescriptorType) (descriptorCount : UInt32) (first : DescriptorRewrite) :
    Option (Option UInt64) :=
  if descriptorCount > 1 ∧ layoutType = .mutable then
    (candidateLoop data descriptorBuffer descriptorOffset layoutType first.size
      (maxStride descriptorOffset bindingEnd descriptorCount)
      (List.range' 1 (descriptorCount.toNat - 1)) 0
      (possibleStrides data first.size (bindingEnd - descriptorOffset) descriptorCount)).map fun
        | none => none
        | some candidateStride => if candidateStride = 0 then none else some candidateStride
  else some (some first.size)

/-- The loop over the elements. -/
def resolveElements (descriptorBuffer : Option Pointer) (descriptorOffset bindingEnd : UInt64)
    (layoutType : DescriptorType) (stride : UInt64) :
    List Nat → Option (Option (List (BufferAccess × UInt64 × DescriptorType)))
  | [] => some (some [])
  | i :: rest =>
      if i ≠ 0 ∧ stride > (bindingEnd - descriptorOffset) / UInt64.ofNat i then some none
      else
        let offset := elementOffset descriptorOffset stride i
        if offset ≥ bindingEnd then some none
        else
          (resolveDescriptorBufferResource data descriptorBuffer offset layoutType).bind fun
            | none => some none
            | some (access, elementType) =>
                (resolveElements descriptorBuffer descriptorOffset bindingEnd layoutType stride
                  rest).map fun entries => entries.map fun entries =>
                    (access, offset, elementType) :: entries

/-- `binding_type`: the first type that is not `VK_DESCRIPTOR_TYPE_MAX_ENUM`. -/
def bindingType (types : List DescriptorType) : DescriptorType :=
  types.foldl (fun type elementType => if type = .maxEnum then elementType else type) .maxEnum

/-- `resolve_descriptor_buffer_binding`: the result, and what has been filled in. -/
def resolveDescriptorBufferBinding (descriptorBuffer : Option Pointer)
    (descriptorOffset bindingEnd : UInt64) (layoutType : DescriptorType) (descriptorCount : UInt32)
    (out : Outputs) : Option (Bool × Outputs) :=
  if descriptorCount = 0 ∨ descriptorOffset ≥ bindingEnd then some (false, out)
  else
    (findDescriptorBufferResource data descriptorBuffer descriptorOffset layoutType).bind fun
      | none => some (false, out)
      | some first =>
          (findStride data descriptorBuffer descriptorOffset bindingEnd layoutType descriptorCount
            first).bind fun
            | none => some (false, out)
            | some stride =>
                (resolveElements data descriptorBuffer descriptorOffset bindingEnd layoutType stride
                  (List.range descriptorCount.toNat)).map fun
                  | none => (false, out)
                  | some entries =>
                      let types := entries.map fun entry => entry.2.2
                      (true, {
                        dst := {
                          descriptorType := bindingType types
                          descriptorBufferBacked := false
                          buffers := entries.map fun entry => entry.1
                          images := []
                          opaques := [] }
                        resolvedType := bindingType types
                        descriptorOffsets := entries.map fun entry => entry.2.1
                        descriptorTypes := types })

end

/-! ### Arrays of descriptors -/

/-- A descriptor is found at a place. -/
def Found (data : BindingData) (descriptorBuffer : Option Pointer) (layoutType : DescriptorType)
    (offset : UInt64) (payload : DescriptorRewrite) : Prop :=
  findDescriptorBufferResource data descriptorBuffer offset layoutType = some (some payload)

section

variable (data : BindingData) (descriptorBuffer : Option Pointer)
variable (descriptorOffset bindingEnd : UInt64) (layoutType : DescriptorType)
variable (descriptorCount : UInt32)

/-- A stride that is tried, and at which every element behind the first is found. -/
structure Candidate (first : DescriptorRewrite) (stride : UInt64) : Prop where
  possible : stride ∈ possibleStrides data first.size (bindingEnd - descriptorOffset)
    descriptorCount
  room : first.size ≤ stride
  small : stride ≤ maxStride descriptorOffset bindingEnd descriptorCount
  found : ∀ i, 1 ≤ i → i < descriptorCount.toNat →
    ∃ payload, Found data descriptorBuffer layoutType (elementOffset descriptorOffset stride i)
      payload

/-- Descriptors are found at a stride, and start in the binding.  It is the size of the first one,
or in a mutable array the only candidate. -/
structure IsArray (stride : UInt64) : Prop where
  positive : 0 < descriptorCount.toNat
  starts : ∃ first, Found data descriptorBuffer layoutType descriptorOffset first ∧
    if descriptorCount > 1 ∧ layoutType = .mutable then
      Candidate data descriptorBuffer descriptorOffset bindingEnd layoutType descriptorCount first
          stride ∧
        ∀ other, Candidate data descriptorBuffer descriptorOffset bindingEnd layoutType
          descriptorCount first other → other = stride
    else stride = first.size
  inside : ∀ i < descriptorCount.toNat,
    descriptorOffset.toNat + stride.toNat * i < bindingEnd.toNat
  found : ∀ i < descriptorCount.toNat,
    ∃ payload, Found data descriptorBuffer layoutType (elementOffset descriptorOffset stride i)
      payload

/-- What is found behind the first element leaves room for the next one, and the last one ends in
the binding. -/
structure PayloadsFit (stride : UInt64) : Prop where
  room : ∀ i, 0 < i → i + 1 < descriptorCount.toNat → ∀ payload,
    Found data descriptorBuffer layoutType (elementOffset descriptorOffset stride i) payload →
      payload.captureBytes.length ≤ stride.toNat
  last : ∀ payload,
    Found data descriptorBuffer layoutType
        (elementOffset descriptorOffset stride (descriptorCount.toNat - 1)) payload →
      descriptorOffset.toNat + stride.toNat * (descriptorCount.toNat - 1) +
        payload.captureBytes.length ≤ bindingEnd.toNat

/-- What a result should be.  Nothing is filled in without success; the elements of an array form
an arithmetic progression below the end of the binding, and what is found there stays in the binding
and does not overlap; and two candidates for the stride of a mutable array are refused. -/
structure Resolved (out : Outputs) (result : Bool) (filled : Outputs) : Prop where
  unchanged : result = false → filled = out
  elements : result = true → filled.descriptorOffsets.length = descriptorCount.toNat ∧
    ∃ stride : Nat, ∀ i < descriptorCount.toNat, ∃ offset payload,
      filled.descriptorOffsets[i]? = some offset ∧
      offset.toNat = descriptorOffset.toNat + stride * i ∧ offset < bindingEnd ∧
      Found data descriptorBuffer layoutType offset payload ∧
      offset.toNat + payload.captureBytes.length ≤ bindingEnd.toNat ∧
      ∀ next, filled.descriptorOffsets[i + 1]? = some next →
        offset.toNat + payload.captureBytes.length ≤ next.toNat
  unambiguous : descriptorCount > 1 ∧ layoutType = .mutable → ∀ first stride other,
    Found data descriptorBuffer layoutType descriptorOffset first →
    Candidate data descriptorBuffer descriptorOffset bindingEnd layoutType descriptorCount first
      stride →
    Candidate data descriptorBuffer descriptorOffset bindingEnd layoutType descriptorCount first
      other → stride ≠ other → result = false

end

section

variable {data : BindingData} {descriptorBuffer : Option Pointer}
variable {descriptorOffset bindingEnd stride : UInt64} {layoutType : DescriptorType}
variable {descriptorCount : UInt32} {out filled : Outputs} {result : Bool}

theorem Found.unique {offset : UInt64} {a b : DescriptorRewrite}
    (ha : Found data descriptorBuffer layoutType offset a)
    (hb : Found data descriptorBuffer layoutType offset b) : a = b :=
  Option.some.inj (Option.some.inj (ha.symm.trans hb))

/-- The offset of an element, where it does not leave the 64-bit numbers. -/
theorem toNat_elementOffset {i : Nat} (hsmall : i < 2 ^ 64)
    (hfits : descriptorOffset.toNat + stride.toNat * i < 2 ^ 64) :
    (elementOffset descriptorOffset stride i).toNat =
      descriptorOffset.toNat + stride.toNat * i := by
  unfold elementOffset
  rw [UInt64.toNat_add, UInt64.toNat_mul, UInt64.toNat_ofNat_of_lt' hsmall,
    Nat.mod_eq_of_lt (a := stride.toNat * i) (by omega), Nat.mod_eq_of_lt hfits]

/-- An array has one stride. -/
theorem IsArray.unique {other : UInt64}
    (harray : IsArray data descriptorBuffer descriptorOffset bindingEnd layoutType descriptorCount
      stride)
    (hother : IsArray data descriptorBuffer descriptorOffset bindingEnd layoutType descriptorCount
      other) : other = stride := by
  obtain ⟨first, hfirst, hstride⟩ := harray.starts
  obtain ⟨first', hfirst', hstride'⟩ := hother.starts
  cases hfirst.unique hfirst'
  split_ifs at hstride hstride' with hmutable
  · exact hstride.2 other hstride'.1
  · exact hstride'.trans hstride.symm

/-! ### The search for a stride -/

theorem elementsMatch_eq_true_iff {elements : List Nat} :
    elementsMatch data descriptorBuffer descriptorOffset layoutType stride elements = some true ↔
      ∀ i ∈ elements, ∃ payload,
        Found data descriptorBuffer layoutType (elementOffset descriptorOffset stride i)
          payload := by
  induction elements with
  | nil => simp [elementsMatch]
  | cons i rest ih =>
      rw [elementsMatch, List.forall_mem_cons, ← ih]
      unfold Found
      cases hfind : findDescriptorBufferResource data descriptorBuffer
        (elementOffset descriptorOffset stride i) layoutType with
      | none => simp
      | some found => cases found <;> simp

/-- A possible stride that passes the tests of the loop. -/
def StrideMatches (data : BindingData) (descriptorBuffer : Option Pointer)
    (descriptorOffset : UInt64) (layoutType : DescriptorType) (smallest largest : UInt64)
    (elements : List Nat) (possibleStride : UInt64) : Prop :=
  smallest ≤ possibleStride ∧ possibleStride ≤ largest ∧
    elementsMatch data descriptorBuffer descriptorOffset layoutType possibleStride elements =
      some true

section

variable {smallest largest candidate : UInt64} {elements : List Nat} {strides : List UInt64}

/-- One round of the search. -/
theorem candidateLoop_cons {found : Option UInt64} {possibleStride : UInt64}
    (hloop : candidateLoop data descriptorBuffer descriptorOffset layoutType smallest largest
      elements candidate (possibleStride :: strides) = some found) :
    (¬ StrideMatches data descriptorBuffer descriptorOffset layoutType smallest largest elements
        possibleStride ∧
      candidateLoop data descriptorBuffer descriptorOffset layoutType smallest largest elements
        candidate strides = some found) ∨
    (StrideMatches data descriptorBuffer descriptorOffset layoutType smallest largest elements
        possibleStride ∧
      (candidate ≠ 0 ∧ found = none ∨ candidate = 0 ∧
        candidateLoop data descriptorBuffer descriptorOffset layoutType smallest largest elements
          possibleStride strides = some found)) := by
  unfold StrideMatches
  rw [candidateLoop] at hloop
  by_cases hrange : possibleStride < smallest ∨ possibleStride > largest
  · rw [if_pos hrange] at hloop
    refine Or.inl ⟨fun hmatches => ?_, hloop⟩
    rcases hrange with h | h
    · exact UInt64.not_lt.mpr hmatches.1 h
    · exact UInt64.not_lt.mpr hmatches.2.1 h
  · rw [if_neg hrange] at hloop
    obtain ⟨hlow, hhigh⟩ := not_or.mp hrange
    obtain ⟨matched, hmatched, hloop⟩ := Option.bind_eq_some_iff.mp hloop
    cases matched with
    | false => exact Or.inl ⟨fun h => by rw [hmatched] at h; simp at h, hloop⟩
    | true =>
        refine Or.inr ⟨⟨UInt64.not_lt.mp hlow, UInt64.not_lt.mp hhigh, hmatched⟩, ?_⟩
        simp only [Bool.true_eq_false, if_false] at hloop
        split_ifs at hloop with hcandidate
        · exact Or.inl ⟨hcandidate, (Option.some.inj hloop).symm⟩
        · exact Or.inr ⟨not_not.mp hcandidate, hloop⟩

/-- The stride that the search ends with is the only one that matches, or there is none. -/
theorem candidateLoop_some (hpositive : 0 < smallest) {found : UInt64}
    (hloop : candidateLoop data descriptorBuffer descriptorOffset layoutType smallest largest
      elements candidate strides = some (some found)) :
    (found = candidate ∧ ∀ s ∈ strides, ¬ StrideMatches data descriptorBuffer descriptorOffset
        layoutType smallest largest elements s) ∨
    (candidate = 0 ∧ found ∈ strides ∧
      StrideMatches data descriptorBuffer descriptorOffset layoutType smallest largest elements
        found ∧
      ∀ s ∈ strides, StrideMatches data descriptorBuffer descriptorOffset layoutType smallest
        largest elements s → s = found) := by
  induction strides generalizing candidate with
  | nil =>
      rw [candidateLoop] at hloop
      exact Or.inl ⟨(Option.some.inj (Option.some.inj hloop)).symm, by simp⟩
  | cons possibleStride strides ih =>
      rcases candidateLoop_cons hloop with ⟨hnot, hrest⟩ | ⟨hmatches, ⟨-, hnone⟩ | ⟨hzero, hrest⟩⟩
      · rcases ih hrest with ⟨hfound, hnever⟩ | ⟨hzero, hmem, hfound, honly⟩
        · exact Or.inl ⟨hfound, List.forall_mem_cons.mpr ⟨hnot, hnever⟩⟩
        · exact Or.inr ⟨hzero, List.mem_cons_of_mem _ hmem, hfound,
            List.forall_mem_cons.mpr ⟨fun h => absurd h hnot, honly⟩⟩
      · cases hnone
      · rcases ih hrest with ⟨rfl, hnever⟩ | ⟨rfl, -⟩
        · exact Or.inr ⟨hzero, List.mem_cons_self .., hmatches,
            List.forall_mem_cons.mpr ⟨fun _ => rfl, fun s hs h => absurd h (hnever s hs)⟩⟩
        · -- a stride that matches is not zero
          exact absurd (UInt64.lt_of_lt_of_le hpositive hmatches.1) (by decide)

/-- Where the search gives up there are two strides that match. -/
theorem candidateLoop_none (hnodup : strides.Nodup)
    (hloop : candidateLoop data descriptorBuffer descriptorOffset layoutType smallest largest
      elements candidate strides = some none) :
    (candidate ≠ 0 ∧ ∃ s ∈ strides, StrideMatches data descriptorBuffer descriptorOffset layoutType
        smallest largest elements s) ∨
    ∃ s ∈ strides, ∃ t ∈ strides, s ≠ t ∧
      StrideMatches data descriptorBuffer descriptorOffset layoutType smallest largest elements s ∧
      StrideMatches data descriptorBuffer descriptorOffset layoutType smallest largest elements
        t := by
  induction strides generalizing candidate with
  | nil =>
      rw [candidateLoop] at hloop
      cases Option.some.inj hloop
  | cons possibleStride strides ih =>
      obtain ⟨hnew, hnodup⟩ := List.nodup_cons.mp hnodup
      rcases candidateLoop_cons hloop with ⟨-, hrest⟩ | ⟨hmatches, ⟨hcandidate, -⟩ | ⟨-, hrest⟩⟩
      · rcases ih hnodup hrest with ⟨hcandidate, s, hs, h⟩ | ⟨s, hs, t, ht, h⟩
        · exact Or.inl ⟨hcandidate, s, List.mem_cons_of_mem _ hs, h⟩
        · exact Or.inr ⟨s, List.mem_cons_of_mem _ hs, t, List.mem_cons_of_mem _ ht, h⟩
      · exact Or.inl ⟨hcandidate, possibleStride, List.mem_cons_self .., hmatches⟩
      · rcases ih hnodup hrest with ⟨-, s, hs, h⟩ | ⟨s, hs, t, ht, h⟩
        · refine Or.inr ⟨possibleStride, List.mem_cons_self .., s, List.mem_cons_of_mem _ hs, ?_,
            hmatches, h⟩
          rintro rfl
          exact hnew hs
        · exact Or.inr ⟨s, List.mem_cons_of_mem _ hs, t, List.mem_cons_of_mem _ ht, h⟩

end

/-- The strides that match are the candidates. -/
theorem candidate_iff {first : DescriptorRewrite} :
    Candidate data descriptorBuffer descriptorOffset bindingEnd layoutType descriptorCount first
        stride ↔
      stride ∈ possibleStrides data first.size (bindingEnd - descriptorOffset) descriptorCount ∧
        StrideMatches data descriptorBuffer descriptorOffset layoutType first.size
          (maxStride descriptorOffset bindingEnd descriptorCount)
          (List.range' 1 (descriptorCount.toNat - 1)) stride := by
  unfold StrideMatches
  rw [elementsMatch_eq_true_iff]
  have hmem : ∀ i, i ∈ List.range' 1 (descriptorCount.toNat - 1) ↔
      1 ≤ i ∧ i < descriptorCount.toNat := by
    intro i
    rw [List.mem_range'_1]
    omega
  simp only [hmem, and_imp]
  exact ⟨fun h => ⟨h.possible, h.room, h.small, h.found⟩, fun h => ⟨h.1, h.2.1, h.2.2.1, h.2.2.2⟩⟩

theorem findLoop_some {mem : Memory} {descriptor available : Nat}
    {found : Option DescriptorRewrite} {payload : DescriptorRewrite}
    {pending : List DescriptorRewrite}
    (hloop : findLoop layoutType mem descriptor available found pending = some (some payload)) :
    found = some payload ∨ payload ∈ pending ∧
      descriptorRewriteMatchesSlot payload layoutType mem descriptor available = true := by
  induction pending generalizing found with
  | nil =>
      unfold findLoop at hloop
      exact Or.inl (Option.some.inj hloop)
  | cons first pending ih =>
      unfold findLoop at hloop
      have hlater : found = some payload ∨ findLoop layoutType mem descriptor available found
          pending = some (some payload) ∨
            descriptorRewriteMatchesSlot first layoutType mem descriptor available = true ∧
              findLoop layoutType mem descriptor available (some first) pending =
                some (some payload) := by
        split_ifs at hloop with hmatches
        · cases found with
          | none => exact Or.inr (Or.inr ⟨hmatches, hloop⟩)
          | some other =>
              simp only at hloop
              split_ifs at hloop
              exact Or.inr (Or.inr ⟨hmatches, hloop⟩)
        · exact Or.inr (Or.inl hloop)
      rcases hlater with h | h | ⟨hmatches, h⟩
      · exact Or.inl h
      · rcases ih h with h | ⟨hmem, h⟩
        · exact Or.inl h
        · exact Or.inr ⟨List.mem_cons_of_mem _ hmem, h⟩
      · rcases ih h with h | ⟨hmem, h⟩
        · cases h
          exact Or.inr ⟨List.mem_cons_self .., hmatches⟩
        · exact Or.inr ⟨List.mem_cons_of_mem _ hmem, h⟩

/-- What is found is pending, and has bytes. -/
theorem Found.spec {offset : UInt64} {payload : DescriptorRewrite}
    (hfound : Found data descriptorBuffer layoutType offset payload) :
    payload ∈ data.pendingDescriptorRewrites ∧ 0 < payload.captureBytes.length := by
  unfold Found findDescriptorBufferResource at hfound
  cases descriptorBuffer with
  | none => cases Option.some.inj hfound
  | some obj =>
      simp only at hfound
      split_ifs at hfound
      · cases Option.some.inj hfound
      · rcases findLoop_some hfound with h | ⟨hmem, hmatches⟩
        · cases h
        · refine ⟨hmem, List.length_pos_iff.mpr fun hnil => ?_⟩
          rw [descriptorRewriteMatchesSlot, if_pos (Or.inr hnil)] at hmatches
          cases hmatches

theorem DescriptorRewrite.toNat_size (payload : DescriptorRewrite) :
    payload.size.toNat = payload.captureBytes.length :=
  UInt64.toNat_ofNat_of_lt' payload.short

theorem Found.size_pos {offset : UInt64} {payload : DescriptorRewrite}
    (hfound : Found data descriptorBuffer layoutType offset payload) : 0 < payload.size := by
  rw [UInt64.lt_iff_toNat_lt, payload.toNat_size]
  exact hfound.spec.2

/-- **The stride.**  It is that of the first descriptor, or the only candidate. -/
theorem findStride_some {first : DescriptorRewrite} (hpositive : 0 < first.size)
    (hstride : findStride data descriptorBuffer descriptorOffset bindingEnd layoutType
      descriptorCount first = some (some stride)) :
    if descriptorCount > 1 ∧ layoutType = .mutable then
      Candidate data descriptorBuffer descriptorOffset bindingEnd layoutType descriptorCount first
          stride ∧
        ∀ other, Candidate data descriptorBuffer descriptorOffset bindingEnd layoutType
          descriptorCount first other → other = stride
    else stride = first.size := by
  unfold findStride at hstride
  split_ifs at hstride ⊢ with hmutable
  · obtain ⟨found, hloop, heq⟩ := Option.map_eq_some_iff.mp hstride
    cases found with
    | none => cases heq
    | some candidateStride =>
        simp only at heq
        split_ifs at heq with hzero
        cases heq
        rcases candidateLoop_some hpositive hloop with ⟨h, -⟩ | ⟨-, hmem, hmatches, honly⟩
        · exact absurd h hzero
        · exact ⟨candidate_iff.mpr ⟨hmem, hmatches⟩, fun other hother =>
            honly other (candidate_iff.mp hother).1 (candidate_iff.mp hother).2⟩
  · exact (Option.some.inj (Option.some.inj hstride)).symm

/-- Without a stride there is no candidate, or there are two. -/
theorem findStride_none {first : DescriptorRewrite} (hpositive : 0 < first.size)
    (hstride : findStride data descriptorBuffer descriptorOffset bindingEnd layoutType
      descriptorCount first = some none) :
    (descriptorCount > 1 ∧ layoutType = .mutable) ∧
      ((∀ s, ¬ Candidate data descriptorBuffer descriptorOffset bindingEnd layoutType
          descriptorCount first s) ∨
        ∃ s t, s ≠ t ∧
          Candidate data descriptorBuffer descriptorOffset bindingEnd layoutType descriptorCount
            first s ∧
          Candidate data descriptorBuffer descriptorOffset bindingEnd layoutType descriptorCount
            first t) := by
  unfold findStride at hstride
  split_ifs at hstride with hmutable
  · refine ⟨hmutable, ?_⟩
    obtain ⟨found, hloop, heq⟩ := Option.map_eq_some_iff.mp hstride
    cases found with
    | none =>
        rcases candidateLoop_none (List.nodup_dedup _) hloop with ⟨h, -⟩ | ⟨s, hs, t, ht, hne, h⟩
        · exact absurd rfl h
        · exact Or.inr ⟨s, t, hne, candidate_iff.mpr ⟨hs, h.1⟩, candidate_iff.mpr ⟨ht, h.2⟩⟩
    | some candidateStride =>
        simp only at heq
        split_ifs at heq with hzero
        subst hzero
        rcases candidateLoop_some hpositive hloop with ⟨-, hnever⟩ | ⟨-, -, hmatches, -⟩
        · exact Or.inl fun s hs => hnever s (candidate_iff.mp hs).1 (candidate_iff.mp hs).2
        · exact absurd (UInt64.lt_of_lt_of_le hpositive hmatches.1) (by decide)
  · cases Option.some.inj hstride

/-! ### The elements -/

theorem resolveResource_some {offset : UInt64} {entry : BufferAccess × DescriptorType}
    (hresolve : resolveDescriptorBufferResource data descriptorBuffer offset layoutType =
      some (some entry)) :
    ∃ payload, Found data descriptorBuffer layoutType offset payload := by
  unfold resolveDescriptorBufferResource at hresolve
  obtain ⟨found, hfound, hresolve⟩ := Option.bind_eq_some_iff.mp hresolve
  cases found with
  | none => cases Option.some.inj hresolve
  | some payload => exact ⟨payload, hfound⟩

theorem resolveResource_none {offset : UInt64}
    (hresolve : resolveDescriptorBufferResource data descriptorBuffer offset layoutType =
      some none) (payload : DescriptorRewrite) :
    ¬ Found data descriptorBuffer layoutType offset payload := by
  intro hthere
  unfold resolveDescriptorBufferResource at hresolve
  rw [hthere, Option.bind_some] at hresolve
  simp only at hresolve
  by_cases haddress : payload.bufferAddress = 0
  · rw [if_pos haddress] at hresolve
    cases Option.some.inj hresolve
  · rw [if_neg haddress] at hresolve
    obtain ⟨mapping, -, heq⟩ := Option.map_eq_some_iff.mp hresolve
    cases heq

/-- The element starts in the binding. -/
def Inside (descriptorOffset bindingEnd stride : UInt64) (i : Nat) : Prop :=
  descriptorOffset.toNat + stride.toNat * i < bindingEnd.toNat

/-- The tests of the loop keep the elements that start in the binding. -/
theorem inside_iff (hrange : descriptorOffset < bindingEnd) {i : Nat} (hsmall : i < 2 ^ 64) :
    ¬ (i ≠ 0 ∧ stride > (bindingEnd - descriptorOffset) / UInt64.ofNat i) ∧
        ¬ elementOffset descriptorOffset stride i ≥ bindingEnd ↔
      Inside descriptorOffset bindingEnd stride i := by
  have hlt := UInt64.lt_iff_toNat_lt.mp hrange
  have hword := bindingEnd.toNat_lt
  have hspan : (bindingEnd - descriptorOffset).toNat = bindingEnd.toNat - descriptorOffset.toNat :=
    UInt64.toNat_sub_of_le _ _ (UInt64.le_of_lt hrange)
  have hstride : stride > (bindingEnd - descriptorOffset) / UInt64.ofNat i ↔
      (bindingEnd.toNat - descriptorOffset.toNat) / i < stride.toNat := by
    show _ < _ ↔ _
    rw [UInt64.lt_iff_toNat_lt, UInt64.toNat_div, hspan, UInt64.toNat_ofNat_of_lt' hsmall]
  have hend : ¬ elementOffset descriptorOffset stride i ≥ bindingEnd ↔
      (elementOffset descriptorOffset stride i).toNat < bindingEnd.toNat := by
    rw [ge_iff_le, UInt64.not_le, UInt64.lt_iff_toNat_lt]
  rw [hstride, hend]
  unfold Inside
  constructor
  · rintro ⟨hnot, hbefore⟩
    have hfits : stride.toNat * i ≤ bindingEnd.toNat - descriptorOffset.toNat := by
      rcases Nat.eq_zero_or_pos i with rfl | hpos
      · rw [Nat.mul_zero]
        exact Nat.zero_le _
      · exact (Nat.le_div_iff_mul_le hpos).mp (not_lt.mp fun h => hnot ⟨hpos.ne', h⟩)
    rwa [toNat_elementOffset hsmall (by omega)] at hbefore
  · intro hinside
    refine ⟨fun ⟨hne, hgreater⟩ => ?_, ?_⟩
    · have hle := (Nat.le_div_iff_mul_le (Nat.pos_of_ne_zero hne)).mpr
        (show stride.toNat * i ≤ bindingEnd.toNat - descriptorOffset.toNat by omega)
      omega
    · rwa [toNat_elementOffset hsmall (by omega)]

/-- The elements that are resolved are those of an array. -/
theorem resolveElements_some (hrange : descriptorOffset < bindingEnd) {elements : List Nat}
    (hsmall : ∀ i ∈ elements, i < 2 ^ 64)
    {entries : List (BufferAccess × UInt64 × DescriptorType)}
    (hresolve : resolveElements data descriptorBuffer descriptorOffset bindingEnd layoutType stride
      elements = some (some entries)) :
    entries.map (fun entry => entry.2.1) = elements.map (elementOffset descriptorOffset stride) ∧
      ∀ i ∈ elements, Inside descriptorOffset bindingEnd stride i ∧
        ∃ payload, Found data descriptorBuffer layoutType (elementOffset descriptorOffset stride i)
          payload := by
  induction elements generalizing entries with
  | nil =>
      rw [resolveElements] at hresolve
      cases hresolve
      exact ⟨rfl, by simp⟩
  | cons i rest ih =>
      obtain ⟨hi, hsmall⟩ := List.forall_mem_cons.mp hsmall
      rw [resolveElements] at hresolve
      simp only at hresolve
      split_ifs at hresolve with hstride hend
      · cases Option.some.inj hresolve
      · cases Option.some.inj hresolve
      · obtain ⟨found, hfound, hresolve⟩ := Option.bind_eq_some_iff.mp hresolve
        cases found with
        | none => cases Option.some.inj hresolve
        | some found =>
            obtain ⟨others, hothers, heq⟩ := Option.map_eq_some_iff.mp hresolve
            obtain ⟨others, rfl, rfl⟩ := Option.map_eq_some_iff.mp heq
            obtain ⟨hoffsets, hall⟩ := ih hsmall hothers
            refine ⟨?_, List.forall_mem_cons.mpr
              ⟨⟨(inside_iff hrange hi).mp ⟨hstride, hend⟩, resolveResource_some hfound⟩, hall⟩⟩
            rw [List.map_cons, List.map_cons, hoffsets]

/-- Where the elements are not resolved, there is no array. -/
theorem resolveElements_none (hrange : descriptorOffset < bindingEnd) {elements : List Nat}
    (hsmall : ∀ i ∈ elements, i < 2 ^ 64)
    (hresolve : resolveElements data descriptorBuffer descriptorOffset bindingEnd layoutType stride
      elements = some none) :
    ∃ i ∈ elements, ¬ (Inside descriptorOffset bindingEnd stride i ∧
      ∃ payload, Found data descriptorBuffer layoutType (elementOffset descriptorOffset stride i)
        payload) := by
  induction elements with
  | nil =>
      rw [resolveElements] at hresolve
      cases Option.some.inj hresolve
  | cons i rest ih =>
      obtain ⟨hi, hsmall⟩ := List.forall_mem_cons.mp hsmall
      rw [resolveElements] at hresolve
      simp only at hresolve
      split_ifs at hresolve with hstride hend
      · exact ⟨i, List.mem_cons_self .., fun h => ((inside_iff hrange hi).mpr h.1).1 hstride⟩
      · exact ⟨i, List.mem_cons_self .., fun h => ((inside_iff hrange hi).mpr h.1).2 hend⟩
      · obtain ⟨found, hfound, hresolve⟩ := Option.bind_eq_some_iff.mp hresolve
        cases found with
        | none => exact ⟨i, List.mem_cons_self .., fun ⟨_, payload, h⟩ =>
            resolveResource_none hfound payload h⟩
        | some found =>
            obtain ⟨others, hothers, heq⟩ := Option.map_eq_some_iff.mp hresolve
            obtain rfl := Option.map_eq_none_iff.mp heq
            obtain ⟨j, hj, h⟩ := ih hsmall hothers
            exact ⟨j, List.mem_cons_of_mem _ hj, h⟩

/-- **The binding.**  With success the offsets are those of an array, and otherwise nothing is
filled in and there is no array. -/
theorem resolve_cases
    (hresolve : resolveDescriptorBufferBinding data descriptorBuffer descriptorOffset bindingEnd
      layoutType descriptorCount out = some (result, filled)) :
    (result = true ∧ ∃ stride,
      IsArray data descriptorBuffer descriptorOffset bindingEnd layoutType descriptorCount stride ∧
        filled.descriptorOffsets =
          (List.range descriptorCount.toNat).map (elementOffset descriptorOffset stride)) ∨
    (result = false ∧ filled = out ∧ ∀ stride,
      ¬ IsArray data descriptorBuffer descriptorOffset bindingEnd layoutType descriptorCount
        stride) := by
  have hsmall : ∀ i ∈ List.range descriptorCount.toNat, i < 2 ^ 64 := fun i hi =>
    (List.mem_range.mp hi).trans (descriptorCount.toNat_lt.trans (by norm_num))
  unfold resolveDescriptorBufferBinding at hresolve
  split_ifs at hresolve with hempty
  · -- no elements, or none that starts in the binding
    cases hresolve
    refine Or.inr ⟨rfl, rfl, fun stride harray => ?_⟩
    have hpositive := harray.positive
    have hinside := harray.inside 0 hpositive
    rcases hempty with rfl | hend
    · exact absurd hpositive (by decide)
    · have hle := UInt64.le_iff_toNat_le.mp hend
      omega
  · obtain ⟨hcount, hend⟩ := not_or.mp hempty
    have hrange : descriptorOffset < bindingEnd := UInt64.not_le.mp hend
    obtain ⟨found, hfirst, hresolve⟩ := Option.bind_eq_some_iff.mp hresolve
    cases found with
    | none =>
        cases hresolve
        refine Or.inr ⟨rfl, rfl, fun stride harray => ?_⟩
        obtain ⟨first, hthere, -⟩ := harray.starts
        exact absurd (Option.some.inj (hfirst.symm.trans hthere)) (by simp)
    | some first =>
        have hfirst : Found data descriptorBuffer layoutType descriptorOffset first := hfirst
        obtain ⟨found, hstride, hresolve⟩ := Option.bind_eq_some_iff.mp hresolve
        cases found with
        | none =>
            cases hresolve
            refine Or.inr ⟨rfl, rfl, fun stride harray => ?_⟩
            obtain ⟨hmutable, hnone⟩ := findStride_none hfirst.size_pos hstride
            obtain ⟨first', hfirst', hstarts⟩ := harray.starts
            cases hfirst.unique hfirst'
            rw [if_pos hmutable] at hstarts
            rcases hnone with hnever | ⟨s, t, hne, hs, ht⟩
            · exact hnever stride hstarts.1
            · exact hne ((hstarts.2 s hs).trans (hstarts.2 t ht).symm)
        | some stride =>
            have hstarts := findStride_some hfirst.size_pos hstride
            obtain ⟨found, helements, heq⟩ := Option.map_eq_some_iff.mp hresolve
            cases found with
            | none =>
                cases heq
                refine Or.inr ⟨rfl, rfl, fun other harray => ?_⟩
                obtain ⟨first', hfirst', hstarts'⟩ := harray.starts
                cases hfirst.unique hfirst'
                have hsame : other = stride := by
                  split_ifs at hstarts hstarts' with hmutable
                  · exact hstarts.2 other hstarts'.1
                  · exact hstarts'.trans hstarts.symm
                subst hsame
                obtain ⟨i, hi, hnot⟩ := resolveElements_none hrange hsmall helements
                have hi := List.mem_range.mp hi
                exact hnot ⟨harray.inside i hi, harray.found i hi⟩
            | some entries =>
                cases heq
                obtain ⟨hoffsets, hall⟩ := resolveElements_some hrange hsmall helements
                refine Or.inl ⟨rfl, stride, ⟨?_, ⟨first, hfirst, hstarts⟩, ?_, ?_⟩, hoffsets⟩
                · refine Nat.pos_of_ne_zero fun hzero => hcount ?_
                  exact UInt32.toNat_inj.mp hzero
                · exact fun i hi => (hall i (List.mem_range.mpr hi)).1
                · exact fun i hi => (hall i (List.mem_range.mpr hi)).2

/-! ### Aborts -/

/-- No place has two resources, and the buffers of the descriptors can be mapped. -/
def NeverAborts (data : BindingData) (descriptorBuffer : Option Pointer)
    (layoutType : DescriptorType) : Prop :=
  (∀ offset, (findDescriptorBufferResource data descriptorBuffer offset layoutType).isSome) ∧
    ∀ payload ∈ data.pendingDescriptorRewrites, payload.bufferAddress ≠ 0 →
      (mapDeviceAddressRange data.toExecutionData payload.bufferAddress
        (if payload.bufferRange = wholeSize then 1 else payload.bufferRange)).isSome

theorem elementsMatch_isSome (hnever : NeverAborts data descriptorBuffer layoutType)
    (descriptorOffset stride : UInt64) (elements : List Nat) :
    (elementsMatch data descriptorBuffer descriptorOffset layoutType stride elements).isSome := by
  induction elements with
  | nil => rfl
  | cons i rest ih =>
      obtain ⟨found, hfound⟩ := Option.isSome_iff_exists.mp
        (hnever.1 (elementOffset descriptorOffset stride i))
      rw [elementsMatch, hfound, Option.bind_some]
      cases found with
      | none => rfl
      | some payload => exact ih

theorem candidateLoop_isSome (hnever : NeverAborts data descriptorBuffer layoutType)
    {smallest largest candidate : UInt64} {elements : List Nat} {strides : List UInt64} :
    (candidateLoop data descriptorBuffer descriptorOffset layoutType smallest largest elements
      candidate strides).isSome := by
  induction strides generalizing candidate with
  | nil => rfl
  | cons possibleStride strides ih =>
      obtain ⟨found, hfound⟩ := Option.isSome_iff_exists.mp
        (elementsMatch_isSome hnever descriptorOffset possibleStride elements)
      rw [candidateLoop, hfound, Option.bind_some]
      split_ifs
      · exact ih
      · exact ih
      · rfl
      · exact ih

theorem resolveResource_isSome (hnever : NeverAborts data descriptorBuffer layoutType)
    (offset : UInt64) :
    (resolveDescriptorBufferResource data descriptorBuffer offset layoutType).isSome := by
  obtain ⟨found, hfound⟩ := Option.isSome_iff_exists.mp (hnever.1 offset)
  unfold resolveDescriptorBufferResource
  rw [hfound, Option.bind_some]
  cases found with
  | none => rfl
  | some payload =>
      have hpending := (show Found data descriptorBuffer layoutType offset payload
        from hfound).spec.1
      simp only
      by_cases haddress : payload.bufferAddress = 0
      · rw [if_pos haddress]
        rfl
      · rw [if_neg haddress, Option.isSome_map]
        exact hnever.2 payload hpending haddress

theorem resolveElements_isSome (hnever : NeverAborts data descriptorBuffer layoutType)
    (elements : List Nat) :
    (resolveElements data descriptorBuffer descriptorOffset bindingEnd layoutType stride
      elements).isSome := by
  induction elements with
  | nil => rfl
  | cons i rest ih =>
      obtain ⟨found, hfound⟩ := Option.isSome_iff_exists.mp
        (resolveResource_isSome hnever (elementOffset descriptorOffset stride i))
      rw [resolveElements]
      simp only
      split_ifs
      · rfl
      · rfl
      · rw [hfound, Option.bind_some]
        cases found with
        | none => rfl
        | some entry =>
            show (Option.map _ _).isSome
            rw [Option.isSome_map]
            exact ih

/-- Without an abort there is a result. -/
theorem resolve_isSome (hnever : NeverAborts data descriptorBuffer layoutType) (out : Outputs) :
    (resolveDescriptorBufferBinding data descriptorBuffer descriptorOffset bindingEnd layoutType
      descriptorCount out).isSome := by
  obtain ⟨found, hfound⟩ := Option.isSome_iff_exists.mp (hnever.1 descriptorOffset)
  unfold resolveDescriptorBufferBinding
  split_ifs
  · rfl
  · rw [hfound, Option.bind_some]
    cases found with
    | none => rfl
    | some first =>
        have hstride : (findStride data descriptorBuffer descriptorOffset bindingEnd layoutType
            descriptorCount first).isSome := by
          unfold findStride
          split_ifs
          · rw [Option.isSome_map]
            exact candidateLoop_isSome hnever
          · rfl
        obtain ⟨stride, hstride⟩ := Option.isSome_iff_exists.mp hstride
        simp only
        rw [hstride, Option.bind_some]
        cases stride with
        | none => rfl
        | some stride =>
            simp only
            rw [Option.isSome_map]
            exact resolveElements_isSome hnever _

/-! ### When the result is right -/

/-- The places of the elements are an arithmetic progression. -/
theorem IsArray.toNat_offset {i : Nat}
    (harray : IsArray data descriptorBuffer descriptorOffset bindingEnd layoutType descriptorCount
      stride) (hi : i < descriptorCount.toNat) :
    (elementOffset descriptorOffset stride i).toNat =
        descriptorOffset.toNat + stride.toNat * i := by
  have hinside := harray.inside i hi
  have hcount := descriptorCount.toNat_lt
  exact toNat_elementOffset (by omega) (hinside.trans bindingEnd.toNat_lt)

theorem getElem?_offsets (count i : Nat) :
    ((List.range count).map (elementOffset descriptorOffset stride))[i]? =
      if i < count then some (elementOffset descriptorOffset stride i) else none := by
  rw [List.getElem?_map]
  split_ifs with hi
  · rw [List.getElem?_range hi, Option.map_some]
  · rw [List.getElem?_eq_none (by rw [List.length_range]; omega), Option.map_none]

/-- The first descriptor is not longer than the stride. -/
theorem IsArray.first_le {payload : DescriptorRewrite}
    (harray : IsArray data descriptorBuffer descriptorOffset bindingEnd layoutType descriptorCount
      stride)
    (hfound : Found data descriptorBuffer layoutType (elementOffset descriptorOffset stride 0)
      payload) : payload.captureBytes.length ≤ stride.toNat := by
  have hzero : elementOffset descriptorOffset stride 0 = descriptorOffset := by
    simp [elementOffset]
  rw [hzero] at hfound
  obtain ⟨first, hfirst, hstarts⟩ := harray.starts
  cases hfound.unique hfirst
  rw [← payload.toNat_size]
  split_ifs at hstarts
  · exact UInt64.le_iff_toNat_le.mp hstarts.1.room
  · rw [hstarts]

/-- With room for the payloads, what is found leaves room for the next element and ends in the
binding. -/
theorem IsArray.ends
    (harray : IsArray data descriptorBuffer descriptorOffset bindingEnd layoutType descriptorCount
      stride)
    (hfit : PayloadsFit data descriptorBuffer descriptorOffset bindingEnd layoutType
      descriptorCount stride) {i : Nat} (hi : i < descriptorCount.toNat)
    {payload : DescriptorRewrite}
    (hfound : Found data descriptorBuffer layoutType (elementOffset descriptorOffset stride i)
      payload) :
    (i + 1 < descriptorCount.toNat → payload.captureBytes.length ≤ stride.toNat) ∧
      descriptorOffset.toNat + stride.toNat * i + payload.captureBytes.length ≤
        bindingEnd.toNat := by
  have hroom : i + 1 < descriptorCount.toNat → payload.captureBytes.length ≤ stride.toNat := by
    intro hlater
    rcases Nat.eq_zero_or_pos i with rfl | hpositive
    · exact harray.first_le hfound
    · exact hfit.room i hpositive hlater payload hfound
  refine ⟨hroom, ?_⟩
  by_cases hlater : i + 1 < descriptorCount.toNat
  · have hinside := harray.inside (i + 1) hlater
    rw [Nat.mul_succ] at hinside
    have hle := hroom hlater
    omega
  · have hlast : i = descriptorCount.toNat - 1 := by omega
    subst hlast
    exact hfit.last payload hfound

/-- With room for the payloads the result is right. -/
theorem resolved_of_fit
    (hresolve : resolveDescriptorBufferBinding data descriptorBuffer descriptorOffset bindingEnd
      layoutType descriptorCount out = some (result, filled))
    (hfit : ∀ stride, IsArray data descriptorBuffer descriptorOffset bindingEnd layoutType
      descriptorCount stride →
        PayloadsFit data descriptorBuffer descriptorOffset bindingEnd layoutType descriptorCount
          stride) :
    Resolved data descriptorBuffer descriptorOffset bindingEnd layoutType descriptorCount out result
      filled := by
  rcases resolve_cases hresolve with ⟨rfl, stride, harray, hoffsets⟩ | ⟨rfl, rfl, -⟩
  · refine ⟨fun h => absurd h (by decide), fun _ => ⟨?_, stride.toNat, fun i hi => ?_⟩, ?_⟩
    · rw [hoffsets, List.length_map, List.length_range]
    · obtain ⟨payload, hfound⟩ := harray.found i hi
      have hoffset := harray.toNat_offset hi
      have hroom := harray.ends (hfit stride harray) hi hfound
      refine ⟨elementOffset descriptorOffset stride i, payload, ?_, hoffset, ?_, hfound, ?_, ?_⟩
      · rw [hoffsets, getElem?_offsets, if_pos hi]
      · rw [UInt64.lt_iff_toNat_lt, hoffset]
        exact harray.inside i hi
      · rw [hoffset]
        exact hroom.2
      · intro next hnext
        rw [hoffsets, getElem?_offsets] at hnext
        split_ifs at hnext with hlater
        cases hnext
        have hle := hroom.1 hlater
        rw [hoffset, harray.toNat_offset hlater, Nat.mul_succ]
        omega
    · -- no other stride is a candidate for an array
      intro hmutable first s t hfirst hs ht hne
      obtain ⟨first', hfirst', hstarts⟩ := harray.starts
      cases hfirst.unique hfirst'
      rw [if_pos hmutable] at hstarts
      exact absurd ((hstarts.2 s hs).trans (hstarts.2 t ht).symm) hne
  · exact ⟨fun _ => rfl, fun h => absurd h (by decide), fun _ _ _ _ _ _ _ _ => rfl⟩

/-- **Bindings in descriptor buffers.**  Without an abort there is a result.  It is right exactly if
what is found behind the first element of an array leaves room for the next one, and the last one
ends in the binding. -/
theorem resolve_binding_iff (data : BindingData) (descriptorBuffer : Option Pointer)
    (descriptorOffset bindingEnd : UInt64) (layoutType : DescriptorType) (descriptorCount : UInt32)
    (out : Outputs) :
    (NeverAborts data descriptorBuffer layoutType →
      (resolveDescriptorBufferBinding data descriptorBuffer descriptorOffset bindingEnd layoutType
        descriptorCount out).isSome) ∧
    ∀ result filled, resolveDescriptorBufferBinding data descriptorBuffer descriptorOffset
        bindingEnd layoutType descriptorCount out = some (result, filled) →
      (Resolved data descriptorBuffer descriptorOffset bindingEnd layoutType descriptorCount out
          result filled ↔
        ∀ stride, IsArray data descriptorBuffer descriptorOffset bindingEnd layoutType
          descriptorCount stride →
            PayloadsFit data descriptorBuffer descriptorOffset bindingEnd layoutType descriptorCount
              stride) := by
  refine ⟨fun hnever => resolve_isSome hnever out, fun result filled hresolve =>
    ⟨fun hresolved stride harray => ?_, resolved_of_fit hresolve⟩⟩
  rcases resolve_cases hresolve with ⟨rfl, other, hother, hoffsets⟩ | ⟨-, -, hnone⟩
  · cases harray.unique hother
    obtain ⟨-, n, hall⟩ := hresolved.elements rfl
    have hends : ∀ i < descriptorCount.toNat, ∀ payload,
        Found data descriptorBuffer layoutType (elementOffset descriptorOffset stride i) payload →
          (elementOffset descriptorOffset stride i).toNat + payload.captureBytes.length ≤
              bindingEnd.toNat ∧
            ∀ next, filled.descriptorOffsets[i + 1]? = some next →
              (elementOffset descriptorOffset stride i).toNat + payload.captureBytes.length ≤
                next.toNat := by
      intro i hi payload hfound
      obtain ⟨offset, payload', hoffset, -, -, hfound', hend, hnext⟩ := hall i hi
      rw [hoffsets, getElem?_offsets, if_pos hi] at hoffset
      cases hoffset
      cases hfound.unique hfound'
      exact ⟨hend, hnext⟩
    constructor
    · intro i _ hlater payload hfound
      have hi : i < descriptorCount.toNat := Nat.lt_of_succ_lt hlater
      have hle := (hends i hi payload hfound).2 (elementOffset descriptorOffset stride (i + 1))
        (by rw [hoffsets, getElem?_offsets, if_pos hlater])
      rw [harray.toNat_offset hi, harray.toNat_offset hlater, Nat.mul_succ] at hle
      omega
    · intro payload hfound
      have hlast := Nat.sub_lt harray.positive one_pos
      rw [← harray.toNat_offset hlast]
      exact (hends _ hlast payload hfound).1
  · exact absurd harray (hnone stride)

end

/-- A buffer of 64 bytes that starts with the bytes of two descriptors, of four and of six bytes. -/
def twoDescriptors : BindingData where
  toExecutionData := { oneBuffer with
    mapped := fun _ addr => if addr < 10 then UInt8.ofNat (addr + 1) else 0 }
  pendingDescriptorRewrites := [
    { type := .uniformBuffer, captureBytes := [1, 2, 3, 4], short := by decide,
      hasBufferAddressInfo := true, bufferAddress := 0, bufferRange := 0, bufferFormat := 0 },
    { type := .uniformBuffer, captureBytes := [5, 6, 7, 8, 9, 10], short := by decide,
      hasBufferAddressInfo := true, bufferAddress := 0, bufferRange := 0, bufferFormat := 0 }]
  isMapped := fun _ => true

/-- The second descriptor is found at the size of the first one, and ends behind the binding. -/
theorem payload_leaves_binding :
    ¬ ∀ (data : BindingData) (descriptorBuffer : Option Pointer)
        (descriptorOffset bindingEnd : UInt64) (layoutType : DescriptorType)
        (descriptorCount : UInt32) (out : Outputs) (result : Bool) (filled : Outputs),
      descriptorOffset < bindingEnd →
      (∀ obj, descriptorBuffer = some obj → bindingEnd.toNat ≤ (data.heap obj).size) →
      resolveDescriptorBufferBinding data descriptorBuffer descriptorOffset bindingEnd layoutType
        descriptorCount out = some (result, filled) →
      Resolved data descriptorBuffer descriptorOffset bindingEnd layoutType descriptorCount out
        result filled := by
  intro hall
  let out : Outputs := ⟨{}, .maxEnum, [], []⟩
  let filled : Outputs := ⟨⟨.uniformBuffer, false, [{}, {}], [], []⟩, .uniformBuffer, [0, 4],
    [.uniformBuffer, .uniformBuffer]⟩
  have hresolve : resolveDescriptorBufferBinding twoDescriptors (some 1) 0 8 .uniformBuffer 2 out =
      some (true, filled) := by decide
  have hsize : ∀ obj, some 1 = some obj → (8 : UInt64).toNat ≤ (twoDescriptors.heap obj).size :=
    fun _ _ => by
      show 8 ≤ 64
      decide
  have hresolved := hall twoDescriptors (some 1) 0 8 .uniformBuffer 2 out true filled (by decide)
    hsize hresolve
  obtain ⟨-, stride, helements⟩ := hresolved.elements rfl
  obtain ⟨offset, payload, hoffset, -, -, hfound, hend, -⟩ := helements 1 (by decide)
  cases Option.some.inj (show some (4 : UInt64) = some offset from hoffset)
  have hthere : Found twoDescriptors (some 1) .uniformBuffer 4
      { type := .uniformBuffer, captureBytes := [5, 6, 7, 8, 9, 10], short := by decide,
        hasBufferAddressInfo := true, bufferAddress := 0, bufferRange := 0,
        bufferFormat := 0 } := by
    unfold Found
    decide
  cases hthere.unique hfound
  exact absurd hend (by decide)

end DescriptorBindings
end Lavatube
