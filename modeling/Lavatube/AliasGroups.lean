import Mathlib
import Lavatube.Lib.IntervalSweep

/-!
# Alias groups

Objects of a trace that shared memory bytes at capture have to share them at replay.
Before the first allocation `suballocator_private::prepare_alias_groups` sorts the
objects of every captured memory by their offset, sweeps over them, and puts each
run of overlapping ranges into one group.  This is the code of `suballocator.cpp`
and `merge_memory_requirements` of `memory.cpp`.

* `prepareAliasGroups` — the pass over all captured memories.
* `Grouped` — what the groups and the lookup tables say about the groups formed.
* `sweep_spec`, `prepare_spec` — the pass forms exactly the clusters of the sweep.
* `alias_groups_are_components` — the groups are the connected components of
  captured overlap.
-/

namespace Lavatube
namespace AliasGroups

open IntervalSweep

/-- The values of `VkObjectType` that the suballocator handles. -/
inductive ObjectType where
  | unknown
  | buffer
  | image
  | tensor
  | dataGraphPipelineSession
  deriving DecidableEq, Repr

/-- The number of the object type. -/
def ObjectType.value : ObjectType → Nat
  | .unknown => 0
  | .buffer => 9
  | .image => 10
  | .tensor => 1000460000
  | .dataGraphPipelineSession => 1000507000

/-- `lava_tiling`. -/
inductive Tiling where
  | optimal
  | linear
  | drm
  deriving DecidableEq, Repr

/-- `memory_requirements`: what the replay device reports for an object. -/
structure MemoryRequirements where
  size : Nat := 0
  alignment : Nat := 0
  memoryTypeBits : BitVec 32 := 0
  memoryFlags : BitVec 32 := 0
  prefersDedicatedAllocation : Bool := false
  requiresDedicatedAllocation : Bool := false
  allocateFlags : BitVec 32 := 0
  deriving DecidableEq, Repr

/-- The fields of `trackedobject` that placement reads; `reqSize` is the captured
`req.size` and `reqs` are the requirements at replay. -/
structure TrackedObject where
  objectType : ObjectType
  index : Nat
  parentDeviceIndex : Nat := 0
  backingIndex : Nat := 2 ^ 32 - 1
  offset : Nat := 0
  reqSize : Nat := 0
  reqs : MemoryRequirements := {}
  memoryFlags : BitVec 32 := 0
  dedicatedAllocation : Bool := false
  tiling : Tiling := .linear
  deriving DecidableEq, Repr

/-- What a lookup table is asked for. -/
def TrackedObject.key (o : TrackedObject) : ObjectType × Nat := (o.objectType, o.index)

/-- The end of the captured range. -/
def TrackedObject.captureEnd (o : TrackedObject) : Nat := o.offset + o.reqSize

/-- `struct alias_group` before it has a home. -/
structure AliasGroup where
  captureMemoryIndex : Nat
  captureOffset : Nat
  size : Nat := 0
  alignment : Nat := 0
  reqs : MemoryRequirements := {}
  tiling : Tiling := .linear
  deriving DecidableEq, Repr

/-- `struct alias_lookup`; a group is named by its place in `alias_groups`. -/
structure AliasLookup where
  group : Option Nat := none
  offset : Nat := 0
  deriving DecidableEq, Repr

/-- The members of `suballocator_private` that the pass fills. -/
structure Aliases where
  groups : List AliasGroup := []
  imageAliasLookup : List AliasLookup := []
  bufferAliasLookup : List AliasLookup := []
  tensorAliasLookup : List AliasLookup := []
  deriving DecidableEq, Repr

/-- The ways out of the pass; each names the object or memory of the message. -/
inductive Abort where
  | captureRange (type : ObjectType) (index : Nat)
  | aliasOffset (offset : Nat) (type : ObjectType) (index : Nat) (alignment : Nat)
  | replayRange (type : ObjectType) (index : Nat)
  | aliasIndex (type : ObjectType) (index : Nat)
  | alreadyGrouped (type : ObjectType) (index : Nat)
  | noMemoryType (memory : Nat)
  | dedicatedMember (memory : Nat)
  deriving DecidableEq, Repr

/-- `UINT64_MAX`. -/
def uint64Max : Nat := 2 ^ 64 - 1

/-- `UINT32_MAX`. -/
def uint32Max : Nat := 2 ^ 32 - 1

/-- `merge_memory_requirements`. -/
def mergeMemoryRequirements (req1 req2 : MemoryRequirements) : MemoryRequirements where
  memoryTypeBits := req1.memoryTypeBits &&& req2.memoryTypeBits
  size := max req1.size req2.size
  alignment := max req1.alignment req2.alignment
  prefersDedicatedAllocation :=
    req1.prefersDedicatedAllocation || req2.prefersDedicatedAllocation
  requiresDedicatedAllocation :=
    req1.requiresDedicatedAllocation || req2.requiresDedicatedAllocation
  memoryFlags := req1.memoryFlags ||| req2.memoryFlags
  allocateFlags := req1.allocateFlags ||| req2.allocateFlags

/-- `capture_offset_less`. -/
def captureOffsetLess (left right : TrackedObject) : Bool :=
  if left.offset ≠ right.offset then left.offset < right.offset
  else if left.objectType ≠ right.objectType then
    left.objectType.value < right.objectType.value
  else
    left.index < right.index

/-- `std::sort` with `capture_offset_less`. -/
def sortObjects (objects : List TrackedObject) : List TrackedObject :=
  objects.insertionSort fun left right => captureOffsetLess right left = false

namespace Aliases

/-- The table of a type. -/
def table (a : Aliases) : ObjectType → Option (List AliasLookup)
  | .image => some a.imageAliasLookup
  | .tensor => some a.tensorAliasLookup
  | .buffer => some a.bufferAliasLookup
  | _ => none

/-- The entry of an object. -/
def lookup (a : Aliases) (key : ObjectType × Nat) : Option AliasLookup :=
  (a.table key.1).bind fun table => table[key.2]?

/-- `get_alias_lookup`; types without a table have no entry. -/
def getAliasLookup (a : Aliases) (type : ObjectType) (index : Nat) :
    Except Abort (Option AliasLookup) :=
  match a.table type with
  | none => .ok none
  | some table =>
      if index ≥ table.length then .error (.aliasIndex type index) else .ok table[index]?

/-- The assignment through the pointer that `get_alias_lookup` returns. -/
def setAliasLookup (a : Aliases) (key : ObjectType × Nat) (entry : AliasLookup) : Aliases :=
  match key.1 with
  | .image => { a with imageAliasLookup := a.imageAliasLookup.set key.2 entry }
  | .tensor => { a with tensorAliasLookup := a.tensorAliasLookup.set key.2 entry }
  | .buffer => { a with bufferAliasLookup := a.bufferAliasLookup.set key.2 entry }
  | _ => a

end Aliases

/-- The variables of the loop over the members of one group. -/
structure Forming where
  group : AliasGroup
  haveRequirements : Bool := false
  aliases : Aliases

/-- The updates of one round: the size, the alignment and the requirements of the group,
and the lookup of the member. -/
def Forming.add (f : Forming) (obj : TrackedObject) : Forming :=
  let relativeOffset := obj.offset - f.group.captureOffset
  { group := { f.group with
      size := max f.group.size (relativeOffset + obj.reqs.size)
      alignment := max f.group.alignment obj.reqs.alignment
      reqs := if f.haveRequirements then mergeMemoryRequirements f.group.reqs obj.reqs
        else obj.reqs }
    haveRequirements := true
    aliases := f.aliases.setAliasLookup obj.key
      ⟨some f.aliases.groups.length, relativeOffset⟩ }

/-- One round of the loop over the members. -/
def addMember (f : Forming) (obj : TrackedObject) : Except Abort Forming :=
  let relativeOffset := obj.offset - f.group.captureOffset
  let alignment := obj.reqs.alignment
  if alignment = 0 ∨ relativeOffset % alignment ≠ 0 then
    .error (.aliasOffset relativeOffset obj.objectType obj.index alignment)
  else if relativeOffset > uint64Max - obj.reqs.size then
    .error (.replayRange obj.objectType obj.index)
  else
    match f.aliases.getAliasLookup obj.objectType obj.index with
    | .error abort => .error abort
    -- `assert(alias && !alias->group)`
    | .ok (some ⟨none, _⟩) => .ok (f.add obj)
    | .ok _ => .error (.alreadyGrouped obj.objectType obj.index)

/-- The loop over the members. -/
def addMembers (f : Forming) : List TrackedObject → Except Abort Forming
  | [] => .ok f
  | obj :: rest =>
      match addMember f obj with
      | .error abort => .error abort
      | .ok f => addMembers f rest

/-- The block that makes a group of a run of more than one object. -/
def formGroup (memory : Nat) (first : TrackedObject) (members : List TrackedObject)
    (a : Aliases) : Except Abort Aliases :=
  match addMembers { group := { captureMemoryIndex := memory
                                captureOffset := first.offset
                                alignment := 1
                                tiling := first.tiling }
                     aliases := a } members with
  | .error abort => .error abort
  | .ok f =>
      let reqs := { f.group.reqs with size := f.group.size, alignment := f.group.alignment }
      if reqs.memoryTypeBits = 0 then .error (.noMemoryType memory)
      else if reqs.requiresDedicatedAllocation = true then .error (.dedicatedMember memory)
      else .ok { f.aliases with groups := f.aliases.groups ++ [{ f.group with reqs := reqs }] }

/-- The inner loop: the objects that start in front of the running end, and the
objects left. -/
def extend (captureEnd : Nat) :
    List TrackedObject → Except Abort (List TrackedObject × List TrackedObject)
  | [] => .ok ([], [])
  | obj :: rest =>
      if obj.offset < captureEnd then
        if obj.offset > uint64Max - obj.reqSize then
          .error (.captureRange obj.objectType obj.index)
        else
          match extend (max captureEnd (obj.offset + obj.reqSize)) rest with
          | .error abort => .error abort
          | .ok (members, left) => .ok (obj :: members, left)
      else
        .ok ([], obj :: rest)

/-- The outer loop over the sorted objects of one memory; the first argument bounds
the number of rounds. -/
def sweep (memory : Nat) : Nat → List TrackedObject → Aliases → Except Abort Aliases
  | 0, _, a => .ok a
  | _ + 1, [], a => .ok a
  | rounds + 1, first :: rest, a =>
      if first.offset > uint64Max - first.reqSize then
        .error (.captureRange first.objectType first.index)
      else
        match extend (first.offset + first.reqSize) rest with
        | .error abort => .error abort
        | .ok (members, left) =>
            if (first :: members).length > 1 then
              match formGroup memory first (first :: members) a with
              | .error abort => .error abort
              | .ok a => sweep memory rounds left a
            else
              sweep memory rounds left a

/-- The images, buffers and tensors of a trace.  Every object has the type of its
vector and an index of its own. -/
structure TraceObjects where
  images : List TrackedObject
  buffers : List TrackedObject
  tensors : List TrackedObject
  image_type : ∀ o ∈ images, o.objectType = .image
  buffer_type : ∀ o ∈ buffers, o.objectType = .buffer
  tensor_type : ∀ o ∈ tensors, o.objectType = .tensor
  image_nodup : (images.map TrackedObject.index).Nodup
  buffer_nodup : (buffers.map TrackedObject.index).Nodup
  tensor_nodup : (tensors.map TrackedObject.index).Nodup

theorem type_of_none (kind : ObjectType) :
    ∀ o ∈ ([] : List TrackedObject), o.objectType = kind := by
  simp

theorem nodup_of_none : (([] : List TrackedObject).map TrackedObject.index).Nodup :=
  List.nodup_nil

/-- The objects that were bound to a captured memory of the device. -/
def isCaptured (device : Nat) (o : TrackedObject) : Bool :=
  o.parentDeviceIndex = device ∧ o.backingIndex ≠ uint32Max ∧ o.reqSize > 0

/-- All captured objects, in the order in which the three loops visit them. -/
def captured (device : Nat) (objects : TraceObjects) : List TrackedObject :=
  objects.images.filter (isCaptured device) ++ objects.buffers.filter (isCaptured device) ++
    objects.tensors.filter (isCaptured device)

/-- The map `memory_objects`, in the order in which it is iterated: by memory index, the
objects of a memory in the order in which they were added. -/
def memoryObjects (objects : List TrackedObject) : List (Nat × List TrackedObject) :=
  ((objects.map TrackedObject.backingIndex).dedup.insertionSort (· ≤ ·)).map
    fun memory => (memory, objects.filter fun o => o.backingIndex = memory)

/-- The loop over the memories. -/
def sweepAll : List (Nat × List TrackedObject) → Aliases → Except Abort Aliases
  | [], a => .ok a
  | (memory, objects) :: rest, a =>
      match sweep memory objects.length (sortObjects objects) a with
      | .error abort => .error abort
      | .ok a => sweepAll rest a

/-- The lookup tables as `suballocator::create` resizes them. -/
def initial (objects : TraceObjects) : Aliases where
  imageAliasLookup := List.replicate objects.images.length {}
  bufferAliasLookup := List.replicate objects.buffers.length {}
  tensorAliasLookup := List.replicate objects.tensors.length {}

/-- `prepare_alias_groups`. -/
def prepareAliasGroups (device : Nat) (objects : TraceObjects) : Except Abort Aliases :=
  sweepAll (memoryObjects (captured device objects)) (initial objects)

/-! ### The lookup tables -/

namespace Aliases

variable {a : Aliases} {key key' : ObjectType × Nat} {entry old : AliasLookup}

@[simp] theorem groups_setAliasLookup : (a.setAliasLookup key entry).groups = a.groups := by
  unfold setAliasLookup
  split <;> rfl

theorem table_setAliasLookup (type : ObjectType) :
    (a.setAliasLookup key entry).table type =
      (a.table type).map fun table => if type = key.1 then table.set key.2 entry else table := by
  obtain ⟨type', index⟩ := key
  cases type <;> cases type' <;> rfl

/-- An assignment changes the entry of its object only. -/
theorem lookup_setAliasLookup (hold : a.lookup key = some old) (key' : ObjectType × Nat) :
    (a.setAliasLookup key entry).lookup key' =
      if key' = key then some entry else a.lookup key' := by
  obtain ⟨type, index⟩ := key
  obtain ⟨type', index'⟩ := key'
  unfold lookup at hold ⊢
  rw [table_setAliasLookup]
  simp only [Option.bind_map]
  by_cases htype : type' = type
  · subst htype
    obtain ⟨table, htable, hentry⟩ := Option.bind_eq_some_iff.mp hold
    have hlt := (List.getElem?_eq_some_iff.mp hentry).1
    simp only [htable, Option.bind_some, Function.comp_apply, if_true, Prod.mk.injEq, true_and]
    rw [List.getElem?_set]
    by_cases hindex : index = index'
    · rw [if_pos hindex, if_pos hlt, if_pos hindex.symm]
    · rw [if_neg hindex, if_neg (Ne.symm hindex)]
  · rw [if_neg (by simp [htype])]
    congr 1
    funext table
    simp [htype]

theorem lookup_of_getAliasLookup {type : ObjectType} {index : Nat} {found : Option AliasLookup}
    (h : a.getAliasLookup type index = .ok found) : a.lookup (type, index) = found := by
  unfold getAliasLookup at h
  unfold lookup
  cases htable : a.table type with
  | none =>
      simp only [htable] at h
      cases h
      rfl
  | some table =>
      simp only [htable] at h
      split at h
      · cases h
      · exact Except.ok.inj h

end Aliases

/-! ### Forming one group -/

section Members

variable {f f' : Forming} {obj : TrackedObject} {members : List TrackedObject}

/-- What a round has checked when it does not abort. -/
theorem addMember_ok (h : addMember f obj = .ok f') :
    0 < obj.reqs.alignment ∧ obj.reqs.alignment ∣ obj.offset - f.group.captureOffset ∧
      (∃ offset, f.aliases.lookup obj.key = some ⟨none, offset⟩) ∧ f' = f.add obj := by
  unfold addMember at h
  simp only at h
  split at h
  · cases h
  · case _ haligned =>
    rw [not_or, not_not] at haligned
    split at h
    · cases h
    · split at h
      · cases h
      · case _ offset hlookup =>
        exact ⟨Nat.pos_of_ne_zero haligned.1, Nat.dvd_of_mod_eq_zero haligned.2,
          ⟨offset, Aliases.lookup_of_getAliasLookup hlookup⟩, (Except.ok.inj h).symm⟩
      · cases h

/-- What the loop over the members leaves behind. -/
structure Added (members : List TrackedObject) (f f' : Forming) : Prop where
  memory : f'.group.captureMemoryIndex = f.group.captureMemoryIndex
  offset : f'.group.captureOffset = f.group.captureOffset
  groups : f'.aliases.groups = f.aliases.groups
  aligned : ∀ o ∈ members,
    0 < o.reqs.alignment ∧ o.reqs.alignment ∣ o.offset - f.group.captureOffset
  size_le : f.group.size ≤ f'.group.size
  fits : ∀ o ∈ members, o.offset - f.group.captureOffset + o.reqs.size ≤ f'.group.size
  alignment_le : f.group.alignment ≤ f'.group.alignment
  covers : ∀ o ∈ members, o.reqs.alignment ≤ f'.group.alignment
  attained : f'.group.alignment = f.group.alignment ∨
    ∃ o ∈ members, f'.group.alignment = o.reqs.alignment
  bits : f.haveRequirements = true → ∀ n, f'.group.reqs.memoryTypeBits.getLsbD n = true ↔
    f.group.reqs.memoryTypeBits.getLsbD n = true ∧
      ∀ o ∈ members, o.reqs.memoryTypeBits.getLsbD n = true
  free : ∀ o ∈ members, ∃ offset, f.aliases.lookup o.key = some ⟨none, offset⟩
  member : ∀ o ∈ members, f'.aliases.lookup o.key =
    some ⟨some f.aliases.groups.length, o.offset - f.group.captureOffset⟩
  other : ∀ key, (∀ o ∈ members, o.key ≠ key) → f'.aliases.lookup key = f.aliases.lookup key

theorem Added.refl (f : Forming) : Added [] f f where
  memory := rfl
  offset := rfl
  groups := rfl
  aligned := by simp
  size_le := le_rfl
  fits := by simp
  alignment_le := le_rfl
  covers := by simp
  attained := .inl rfl
  bits := by simp
  free := by simp
  member := by simp
  other := by simp

/-- The bits of the requirements after one member. -/
theorem Forming.add_bits (f : Forming) (obj : TrackedObject) (n : Nat) :
    (f.add obj).group.reqs.memoryTypeBits.getLsbD n = true ↔
      (f.haveRequirements = true → f.group.reqs.memoryTypeBits.getLsbD n = true) ∧
        obj.reqs.memoryTypeBits.getLsbD n = true := by
  unfold Forming.add
  cases f.haveRequirements <;> simp [mergeMemoryRequirements]

theorem Added.cons {rest : List TrackedObject} (hadd : addMember f obj = .ok (f.add obj))
    (h : Added rest (f.add obj) f') : Added (obj :: rest) f f' := by
  obtain ⟨hpos, hdvd, ⟨offset, hfree⟩, -⟩ := addMember_ok hadd
  have hlookup : ∀ key entry, (f.aliases.setAliasLookup obj.key entry).lookup key =
      if key = obj.key then some entry else f.aliases.lookup key :=
    fun key _ => Aliases.lookup_setAliasLookup hfree key
  have hgroups : (f.add obj).aliases.groups = f.aliases.groups := by simp [Forming.add]
  -- the later members were free before this round, so they are other objects
  have hrest : ∀ o ∈ rest, o.key ≠ obj.key ∧
      ∃ offset, f.aliases.lookup o.key = some ⟨none, offset⟩ := by
    intro o ho
    obtain ⟨offset, hlater⟩ := h.free o ho
    rw [Forming.add, hlookup] at hlater
    split at hlater
    · cases hlater
    · case _ hne => exact ⟨hne, offset, hlater⟩
  constructor
  case memory => exact h.memory
  case offset => exact h.offset
  case groups => exact h.groups.trans hgroups
  case aligned => exact List.forall_mem_cons.mpr ⟨⟨hpos, hdvd⟩, h.aligned⟩
  case size_le => exact (le_max_left _ _).trans h.size_le
  case fits => exact List.forall_mem_cons.mpr ⟨(le_max_right _ _).trans h.size_le, h.fits⟩
  case alignment_le => exact (le_max_left _ _).trans h.alignment_le
  case covers =>
    exact List.forall_mem_cons.mpr ⟨(le_max_right _ _).trans h.alignment_le, h.covers⟩
  case attained =>
    cases h.attained with
    | inl heq =>
        change f'.group.alignment = max f.group.alignment obj.reqs.alignment at heq
        cases max_choice f.group.alignment obj.reqs.alignment with
        | inl hmax => exact .inl (heq.trans hmax)
        | inr hmax => exact .inr ⟨obj, List.mem_cons_self, heq.trans hmax⟩
    | inr hlater =>
        obtain ⟨o, ho, heq⟩ := hlater
        exact .inr ⟨o, List.mem_cons_of_mem obj ho, heq⟩
  case bits =>
    intro hhave n
    rw [h.bits rfl n, Forming.add_bits, List.forall_mem_cons]
    simp [hhave, and_assoc]
  case free =>
    exact List.forall_mem_cons.mpr ⟨⟨offset, hfree⟩, fun o ho => (hrest o ho).2⟩
  case member =>
    refine List.forall_mem_cons.mpr ⟨?_, fun o ho => ?_⟩
    · rw [h.other obj.key fun o ho => (hrest o ho).1, Forming.add, hlookup, if_pos rfl]
    · rw [h.member o ho, hgroups]
      rfl
  case other =>
    intro key hkey
    rw [List.forall_mem_cons] at hkey
    rw [h.other key hkey.2, Forming.add, hlookup, if_neg (Ne.symm hkey.1)]

/-- **The loop over the members.**  Every member is aligned and fits, and the lookups
of the members, and no others, name the group to come. -/
theorem addMembers_added (h : addMembers f members = .ok f') : Added members f f' := by
  induction members generalizing f with
  | nil =>
      cases h
      exact .refl _
  | cons obj rest ih =>
      unfold addMembers at h
      split at h
      · cases h
      · case _ next hadd =>
        obtain ⟨-, -, -, rfl⟩ := addMember_ok hadd
        exact .cons hadd (ih h)

/-- What a finished group says about its members. -/
structure Describes (g : AliasGroup) (members : List TrackedObject) : Prop where
  least : IsLeast { offset | ∃ o ∈ members, o.offset = offset } g.captureOffset
  aligned : ∀ o ∈ members, o.reqs.alignment ∣ o.offset - g.captureOffset
  fits : ∀ o ∈ members, o.offset - g.captureOffset + o.reqs.size ≤ g.size
  alignment : IsGreatest { alignment | ∃ o ∈ members, o.reqs.alignment = alignment } g.alignment
  bits : ∀ n, g.reqs.memoryTypeBits.getLsbD n = true ↔
    ∀ o ∈ members, o.reqs.memoryTypeBits.getLsbD n = true
  reqs_size : g.reqs.size = g.size
  reqs_alignment : g.reqs.alignment = g.alignment

/-- The groups and the lookup tables after the groups `done` have been formed. -/
structure Grouped (done : List (List TrackedObject)) (a : Aliases) : Prop where
  length : a.groups.length = done.length
  describes : ∀ (i : Nat) g members, a.groups[i]? = some g → done[i]? = some members →
    Describes g members
  member : ∀ (i : Nat) g members, a.groups[i]? = some g → done[i]? = some members →
    ∀ o ∈ members, a.lookup o.key = some ⟨some i, o.offset - g.captureOffset⟩
  origin : ∀ key (i : Nat) offset, a.lookup key = some ⟨some i, offset⟩ →
    ∃ members o, done[i]? = some members ∧ o ∈ members ∧ o.key = key

variable {a a' : Aliases} {done : List (List TrackedObject)} {memory : Nat}
  {first : TrackedObject} {rest : List TrackedObject}

/-- The group formed of a sorted run. -/
theorem formGroup_ok (h : formGroup memory first (first :: rest) a = .ok a')
    (hsorted : ∀ o ∈ rest, first.offset ≤ o.offset) :
    ∃ g, a'.groups = a.groups ++ [g] ∧ Describes g (first :: rest) ∧
      (∀ o ∈ first :: rest, ∃ offset, a.lookup o.key = some ⟨none, offset⟩) ∧
      (∀ o ∈ first :: rest, a'.lookup o.key =
        some ⟨some a.groups.length, o.offset - g.captureOffset⟩) ∧
      (∀ key, (∀ o ∈ first :: rest, o.key ≠ key) → a'.lookup key = a.lookup key) := by
  unfold formGroup at h
  split at h
  · cases h
  · case _ f hadd =>
    simp only at h
    split at h
    · cases h
    · split at h
      · cases h
      · cases h
        have hadded := addMembers_added hadd
        -- the first round replaces the requirements, the later ones merge
        have hbits : ∀ n, f.group.reqs.memoryTypeBits.getLsbD n = true ↔
            ∀ o ∈ first :: rest, o.reqs.memoryTypeBits.getLsbD n = true := by
          intro n
          unfold addMembers at hadd
          split at hadd
          · cases hadd
          · case _ next hfirst =>
            obtain ⟨-, -, -, rfl⟩ := addMember_ok hfirst
            rw [(addMembers_added hadd).bits rfl n, Forming.add_bits, List.forall_mem_cons]
            simp
        have hoffset : f.group.captureOffset = first.offset := hadded.offset
        refine ⟨_, congrArg (· ++ _) hadded.groups, ?_, hadded.free, ?_, hadded.other⟩
        · constructor
          case least =>
            constructor
            · exact ⟨first, List.mem_cons_self, hoffset.symm⟩
            · rintro _ ⟨o, ho, rfl⟩
              change f.group.captureOffset ≤ o.offset
              rw [hoffset]
              cases List.mem_cons.mp ho with
              | inl heq => rw [heq]
              | inr ho => exact hsorted o ho
          case aligned =>
            intro o ho
            change _ ∣ o.offset - f.group.captureOffset
            rw [hoffset]
            exact (hadded.aligned o ho).2
          case fits =>
            intro o ho
            change o.offset - f.group.captureOffset + _ ≤ f.group.size
            rw [hoffset]
            exact hadded.fits o ho
          case alignment =>
            constructor
            · cases hadded.attained with
              | inl hone =>
                  -- no alignment is zero, so the initial one is that of the first member
                  refine ⟨first, List.mem_cons_self, ?_⟩
                  have hle := hadded.covers first List.mem_cons_self
                  have hpos := (hadded.aligned first List.mem_cons_self).1
                  change f.group.alignment = 1 at hone
                  change _ = f.group.alignment
                  omega
              | inr hmember =>
                  obtain ⟨o, ho, heq⟩ := hmember
                  exact ⟨o, ho, heq.symm⟩
            · rintro _ ⟨o, ho, rfl⟩
              exact hadded.covers o ho
          case bits => exact hbits
          case reqs_size => rfl
          case reqs_alignment => rfl
        · intro o ho
          change _ = some (AliasLookup.mk _ (o.offset - f.group.captureOffset))
          rw [hoffset]
          exact hadded.member o ho

/-- An entry of a list with one element more is an old entry or the new one. -/
theorem getElem?_snoc_cases {α : Type} {l : List α} {x y : α} {i : Nat}
    (h : (l ++ [x])[i]? = some y) : l[i]? = some y ∨ i = l.length ∧ y = x := by
  cases Nat.lt_or_ge i l.length with
  | inl hlt =>
      rw [List.getElem?_append_left hlt] at h
      exact .inl h
  | inr hge =>
      have hlt := (List.getElem?_eq_some_iff.mp h).1
      rw [List.length_append, List.length_singleton] at hlt
      obtain rfl : i = l.length := by omega
      rw [List.getElem?_concat_length] at h
      exact .inr ⟨rfl, (Option.some.inj h).symm⟩

/-- **A group is formed.** -/
theorem Grouped.snoc (h : Grouped done a)
    (hform : formGroup memory first (first :: rest) a = .ok a')
    (hsorted : ∀ o ∈ rest, first.offset ≤ o.offset) :
    Grouped (done ++ [first :: rest]) a' := by
  obtain ⟨g, hgroups, hdescribes, hfree, hmember, hother⟩ := formGroup_ok hform hsorted
  -- a group and its members are an old pair or the new one
  have hpair : ∀ (i : Nat) g' members, a'.groups[i]? = some g' →
      (done ++ [first :: rest])[i]? = some members →
      (a.groups[i]? = some g' ∧ done[i]? = some members) ∨
        (i = a.groups.length ∧ g' = g ∧ members = first :: rest) := by
    intro i g' members hg hdone
    rw [hgroups] at hg
    have hlength := h.length
    cases getElem?_snoc_cases hg with
    | inl hg =>
        have hlt := (List.getElem?_eq_some_iff.mp hg).1
        cases getElem?_snoc_cases hdone with
        | inl hdone => exact .inl ⟨hg, hdone⟩
        | inr hnew => omega
    | inr hnew =>
        cases getElem?_snoc_cases hdone with
        | inl hdone =>
            have hlt := (List.getElem?_eq_some_iff.mp hdone).1
            omega
        | inr hnew' => exact .inr ⟨hnew.1, hnew.2, hnew'.2⟩
  constructor
  case length => simp [hgroups, h.length]
  case describes =>
    intro i g' members hg hdone
    obtain ⟨hg, hdone⟩ | ⟨-, rfl, rfl⟩ := hpair i g' members hg hdone
    · exact h.describes i g' members hg hdone
    · exact hdescribes
  case member =>
    intro i g' members hg hdone o ho
    obtain ⟨hg, hdone⟩ | ⟨rfl, rfl, rfl⟩ := hpair i g' members hg hdone
    · have hold := h.member i g' members hg hdone o ho
      -- the objects of the new group had none before
      rw [hother o.key, hold]
      intro o' ho' heq
      obtain ⟨offset, hnone⟩ := hfree o' ho'
      rw [heq, hold] at hnone
      cases hnone
    · exact hmember o ho
  case origin =>
    intro key i offset hlookup
    by_cases hnew : ∃ o ∈ first :: rest, o.key = key
    · obtain ⟨o, ho, rfl⟩ := hnew
      rw [hmember o ho] at hlookup
      cases hlookup
      refine ⟨first :: rest, o, ?_, ho, rfl⟩
      rw [h.length, List.getElem?_concat_length]
    · rw [hother key fun o ho heq => hnew ⟨o, ho, heq⟩] at hlookup
      obtain ⟨members, o, hdone, ho, heq⟩ := h.origin key i offset hlookup
      refine ⟨members, o, ?_, ho, heq⟩
      rw [List.getElem?_append_left (List.getElem?_eq_some_iff.mp hdone).1]
      exact hdone

end Members

/-! ### The sweep over one memory -/

section Sweep

variable {captureEnd memory : Nat} {objects members left : List TrackedObject}
  {a a' : Aliases} {done : List (List TrackedObject)}

/-- **The inner loop** takes a run of linked ranges and stops in front of a range that
starts behind all of them. -/
theorem extend_ok (h : extend captureEnd objects = .ok (members, left)) :
    objects = members ++ left ∧
      Linked TrackedObject.offset TrackedObject.captureEnd captureEnd members ∧
      ∀ next ∈ left.head?, captureEnd ≤ next.offset ∧
        ∀ o ∈ members, o.captureEnd ≤ next.offset := by
  induction objects generalizing captureEnd members with
  | nil =>
      cases h
      simp [Linked]
  | cons obj rest ih =>
      unfold extend at h
      split at h
      · case _ hlt =>
        split at h
        · cases h
        · split at h
          · cases h
          · case _ members' left' hrest =>
            cases h
            obtain ⟨hsplit, hlinked, hbehind⟩ := ih hrest
            refine ⟨by rw [hsplit, List.cons_append], ⟨hlt, hlinked⟩, fun next hnext => ?_⟩
            obtain ⟨hend, hmembers⟩ := hbehind next hnext
            rw [max_le_iff] at hend
            exact ⟨hend.1, List.forall_mem_cons.mpr ⟨hend.2, hmembers⟩⟩
      · case _ hge =>
        cases h
        refine ⟨rfl, trivial, fun next hnext => ?_⟩
        cases hnext
        exact ⟨Nat.le_of_not_lt hge, by simp⟩

/-- **The outer loop** forms the clusters of the sorted objects, and makes groups of
those of more than one object. -/
theorem sweep_spec {rounds : Nat} (h : sweep memory rounds objects a = .ok a')
    (hrounds : objects.length ≤ rounds)
    (hsorted : objects.Pairwise fun o o' => o.offset ≤ o'.offset) (hgrouped : Grouped done a) :
    ∃ clusters, clusters.flatten = objects ∧
      Clusters TrackedObject.offset TrackedObject.captureEnd clusters ∧
      Grouped (done ++ clusters.filter fun cluster => cluster.length > 1) a' := by
  induction rounds generalizing objects a done with
  | zero =>
      obtain rfl : objects = [] := List.length_eq_zero_iff.mp (Nat.le_zero.mp hrounds)
      cases h
      exact ⟨[], rfl, .nil, by simpa using hgrouped⟩
  | succ rounds ih =>
      cases objects with
      | nil =>
          cases h
          exact ⟨[], rfl, .nil, by simpa using hgrouped⟩
      | cons first rest =>
          unfold sweep at h
          split at h
          · cases h
          · split at h
            · cases h
            · case _ members left hextend =>
              obtain ⟨rfl, hlinked, hbehind⟩ := extend_ok hextend
              have hleft : left.length ≤ rounds := by
                simp only [List.length_cons, List.length_append] at hrounds
                omega
              have hfirst := (List.pairwise_cons.mp hsorted).1
              have hsortedLeft := ((List.pairwise_append.mp
                (List.pairwise_cons.mp hsorted).2).2.1)
              -- what is left starts behind the run
              have hapart : ∀ o ∈ first :: members, ∀ o' ∈ left, o.captureEnd ≤ o'.offset := by
                cases left with
                | nil => simp
                | cons next left =>
                    obtain ⟨hend, hmembers⟩ := hbehind next rfl
                    intro o ho o' ho'
                    have hnext : next.offset ≤ o'.offset := by
                      cases List.mem_cons.mp ho' with
                      | inl heq => rw [heq]
                      | inr ho' => exact (List.pairwise_cons.mp hsortedLeft).1 o' ho'
                    cases List.mem_cons.mp ho with
                    | inl heq => exact (heq ▸ hend).trans hnext
                    | inr ho => exact (hmembers o ho).trans hnext
              have hcluster : ∀ clusters, clusters.flatten = left →
                  Clusters TrackedObject.offset TrackedObject.captureEnd clusters →
                  Clusters TrackedObject.offset TrackedObject.captureEnd
                    ((first :: members) :: clusters) := by
                rintro clusters rfl hclusters
                exact .cons hlinked hsorted hapart hclusters
              split at h
              · case _ hmany =>
                split at h
                · cases h
                · case _ next hform =>
                  have hnext := hgrouped.snoc hform
                    fun o ho => hfirst o (List.mem_append_left left ho)
                  obtain ⟨clusters, hflatten, hclusters, hlast⟩ := ih h hleft hsortedLeft hnext
                  refine ⟨(first :: members) :: clusters, ?_, hcluster _ hflatten hclusters, ?_⟩
                  · rw [List.flatten_cons, hflatten, List.cons_append]
                  · rw [List.filter_cons_of_pos (by simpa using hmany), ← List.singleton_append,
                      ← List.append_assoc]
                    exact hlast
              · case _ hsingle =>
                obtain ⟨clusters, hflatten, hclusters, hlast⟩ := ih h hleft hsortedLeft hgrouped
                refine ⟨(first :: members) :: clusters, ?_, hcluster _ hflatten hclusters, ?_⟩
                · rw [List.flatten_cons, hflatten, List.cons_append]
                · rw [List.filter_cons_of_neg (by simpa using hsingle)]
                  exact hlast

end Sweep

/-! ### The order of the objects -/

/-- What `capture_offset_less` compares. -/
def rank (o : TrackedObject) : ℕ ×ₗ ℕ ×ₗ ℕ :=
  toLex (o.offset, toLex (o.objectType.value, o.index))

theorem value_injective : Function.Injective ObjectType.value := by
  intro t t' h
  cases t <;> cases t' <;> first | rfl | cases h

theorem captureOffsetLess_iff (left right : TrackedObject) :
    captureOffsetLess left right = true ↔ rank left < rank right := by
  unfold captureOffsetLess rank
  rw [Prod.Lex.toLex_lt_toLex, Prod.Lex.toLex_lt_toLex]
  by_cases hoffset : left.offset = right.offset
  · by_cases htype : left.objectType = right.objectType
    · simp [hoffset, htype]
    · have hvalue := value_injective.ne htype
      simp [hoffset, htype, hvalue]
  · simp [hoffset]

theorem not_captureOffsetLess_iff (left right : TrackedObject) :
    captureOffsetLess right left = false ↔ rank left ≤ rank right := by
  rw [← not_lt, ← captureOffsetLess_iff, Bool.not_eq_true]

theorem sortObjects_perm (objects : List TrackedObject) :
    (sortObjects objects).Perm objects :=
  List.perm_insertionSort _ objects

theorem sortObjects_rank (objects : List TrackedObject) :
    (sortObjects objects).Pairwise fun o o' => rank o ≤ rank o' := by
  have htotal : Std.Total fun left right : TrackedObject => captureOffsetLess right left = false :=
    ⟨fun left right => by simpa only [not_captureOffsetLess_iff] using le_total _ _⟩
  have htrans : IsTrans TrackedObject fun left right => captureOffsetLess right left = false :=
    ⟨fun o₁ o₂ o₃ => by simpa only [not_captureOffsetLess_iff] using le_trans⟩
  refine (List.pairwise_insertionSort _ objects).imp fun {o o'} h => ?_
  exact (not_captureOffsetLess_iff o o').mp h

theorem sortObjects_offset (objects : List TrackedObject) :
    (sortObjects objects).Pairwise fun o o' => o.offset ≤ o'.offset := by
  refine (sortObjects_rank objects).imp fun {o o'} h => ?_
  exact (Prod.Lex.toLex_le_toLex'.mp h).1

/-! ### All memories -/

/-- The clusters of one memory. -/
def ClustersOf (entry : Nat × List TrackedObject) (clusters : List (List TrackedObject)) : Prop :=
  clusters.flatten = sortObjects entry.2 ∧
    Clusters TrackedObject.offset TrackedObject.captureEnd clusters

/-- **The loop over the memories** makes groups of the clusters of more than one object
of each memory, and no others. -/
theorem sweepAll_spec {entries : List (Nat × List TrackedObject)} {a a' : Aliases}
    {done : List (List TrackedObject)} (h : sweepAll entries a = .ok a')
    (hgrouped : Grouped done a) :
    ∃ formed, Grouped (done ++ formed) a' ∧
      (∀ members ∈ formed, ∃ entry ∈ entries, ∃ clusters,
        ClustersOf entry clusters ∧ members ∈ clusters ∧ members.length > 1) ∧
      (∀ entry ∈ entries, ∃ clusters, ClustersOf entry clusters ∧
        ∀ members ∈ clusters, members.length > 1 → members ∈ formed) := by
  induction entries generalizing a done with
  | nil =>
      cases h
      exact ⟨[], by simpa using hgrouped, by simp, by simp⟩
  | cons entry rest ih =>
      unfold sweepAll at h
      split at h
      · cases h
      · case _ next hsweep =>
        have hlength : (sortObjects entry.2).length ≤ entry.2.length :=
          (sortObjects_perm entry.2).length_eq.le
        obtain ⟨ofMemory, hflatten, hclusters, hnext⟩ :=
          sweep_spec hsweep hlength (sortObjects_offset entry.2) hgrouped
        obtain ⟨formed, hlast, hfrom, hto⟩ := ih h hnext
        refine ⟨ofMemory.filter (fun cluster => cluster.length > 1) ++ formed, ?_, ?_, ?_⟩
        · rw [← List.append_assoc]
          exact hlast
        · intro members hmembers
          cases List.mem_append.mp hmembers with
          | inl hmembers =>
              obtain ⟨hmem, hmany⟩ := List.mem_filter.mp hmembers
              exact ⟨entry, List.mem_cons_self, ofMemory, ⟨hflatten, hclusters⟩, hmem,
                of_decide_eq_true hmany⟩
          | inr hmembers =>
              obtain ⟨other, hother, hrest⟩ := hfrom members hmembers
              exact ⟨other, List.mem_cons_of_mem entry hother, hrest⟩
        · refine List.forall_mem_cons.mpr ⟨⟨ofMemory, ⟨hflatten, hclusters⟩, ?_⟩, ?_⟩
          · intro members hmembers hmany
            exact List.mem_append_left _
              (List.mem_filter.mpr ⟨hmembers, decide_eq_true hmany⟩)
          · intro other hother
            obtain ⟨clusters, hof, hformed⟩ := hto other hother
            exact ⟨clusters, hof, fun members hmem hmany =>
              List.mem_append_right _ (hformed members hmem hmany)⟩

theorem Grouped.initial (objects : TraceObjects) : Grouped [] (initial objects) where
  length := rfl
  describes := by simp
  member := by simp
  origin := by
    rintro ⟨type, index⟩ i offset hlookup
    have hnone : ∀ n, (List.replicate n ({} : AliasLookup))[index]? ≠ some ⟨some i, offset⟩ := by
      intro n hsome
      have hmem := List.mem_of_getElem? hsome
      cases List.eq_of_mem_replicate hmem
    cases type
    case image => exact absurd hlookup (hnone _)
    case buffer => exact absurd hlookup (hnone _)
    case tensor => exact absurd hlookup (hnone _)
    all_goals cases hlookup

section Objects

variable {device : Nat} {objects : TraceObjects} {o o' : TrackedObject}

theorem mem_captured_iff : o ∈ captured device objects ↔
    (o ∈ objects.images ∨ o ∈ objects.buffers ∨ o ∈ objects.tensors) ∧
      isCaptured device o = true := by
  simp only [captured, List.mem_append, List.mem_filter]
  tauto

theorem reqSize_pos_of_mem (h : o ∈ captured device objects) : o.offset < o.captureEnd := by
  have hcaptured := (mem_captured_iff.mp h).2
  simp only [isCaptured, decide_eq_true_eq] at hcaptured
  unfold TrackedObject.captureEnd
  omega

/-- No two objects share a lookup entry. -/
theorem key_injective (h : o ∈ captured device objects) (h' : o' ∈ captured device objects)
    (hkey : o.key = o'.key) : o = o' := by
  obtain ⟨hmem, -⟩ := mem_captured_iff.mp h
  obtain ⟨hmem', -⟩ := mem_captured_iff.mp h'
  have htype : o.objectType = o'.objectType := congrArg Prod.fst hkey
  have hindex : o.index = o'.index := congrArg Prod.snd hkey
  -- objects of one type are in one vector
  have hvector : (o ∈ objects.images ∧ o' ∈ objects.images) ∨
      (o ∈ objects.buffers ∧ o' ∈ objects.buffers) ∨
      (o ∈ objects.tensors ∧ o' ∈ objects.tensors) := by
    have himage := objects.image_type
    have hbuffer := objects.buffer_type
    have htensor := objects.tensor_type
    grind
  obtain ⟨ho, ho'⟩ | ⟨ho, ho'⟩ | ⟨ho, ho'⟩ := hvector
  · exact List.inj_on_of_nodup_map objects.image_nodup ho ho' hindex
  · exact List.inj_on_of_nodup_map objects.buffer_nodup ho ho' hindex
  · exact List.inj_on_of_nodup_map objects.tensor_nodup ho ho' hindex

theorem mem_memoryObjects_iff {all : List TrackedObject} {entry : Nat × List TrackedObject} :
    entry ∈ memoryObjects all ↔
      (∃ o ∈ all, o.backingIndex = entry.1) ∧
        entry.2 = all.filter fun o => o.backingIndex = entry.1 := by
  obtain ⟨memory, ofMemory⟩ := entry
  simp only [memoryObjects, List.mem_map, List.mem_insertionSort, List.mem_dedup,
    Prod.mk.injEq]
  constructor
  · rintro ⟨memory', ⟨o, ho, rfl⟩, rfl, rfl⟩
    exact ⟨⟨o, ho, rfl⟩, rfl⟩
  · rintro ⟨hsome, hfilter⟩
    exact ⟨memory, hsome, rfl, hfilter.symm⟩

theorem ClustersOf.mem_flatten_iff {all : List TrackedObject}
    {entry : Nat × List TrackedObject} {clusters : List (List TrackedObject)}
    (hentry : entry ∈ memoryObjects all) (h : ClustersOf entry clusters) :
    o ∈ clusters.flatten ↔ o ∈ all ∧ o.backingIndex = entry.1 := by
  rw [h.1, (sortObjects_perm entry.2).mem_iff, (mem_memoryObjects_iff.mp hentry).2,
    List.mem_filter, decide_eq_true_eq]

/-- The captured ranges of two objects share a byte of one memory. -/
def CaptureOverlap (o o' : TrackedObject) : Prop :=
  o.backingIndex = o'.backingIndex ∧ o.offset < o'.offset + o'.reqSize ∧
    o'.offset < o.offset + o.reqSize

/-- A chain of objects connects the two, each overlapping the next one. -/
def Connected (all : List TrackedObject) : TrackedObject → TrackedObject → Prop :=
  Relation.ReflTransGen fun o o' => o ∈ all ∧ o' ∈ all ∧ CaptureOverlap o o'

/-- Inside one memory the chains of the sweep are the chains of captured overlap. -/
theorem ClustersOf.chained_iff {all : List TrackedObject}
    {entry : Nat × List TrackedObject} {clusters : List (List TrackedObject)}
    (hentry : entry ∈ memoryObjects all) (h : ClustersOf entry clusters)
    (ho : o.backingIndex = entry.1) :
    Chained TrackedObject.offset TrackedObject.captureEnd clusters.flatten o o' ↔
      Connected all o o' := by
  constructor
  · intro hchain
    refine Relation.ReflTransGen.mono (fun x y hstep => ?_) _ _ hchain
    obtain ⟨hx, hmemory⟩ := (h.mem_flatten_iff hentry).mp hstep.1
    obtain ⟨hy, hmemory'⟩ := (h.mem_flatten_iff hentry).mp hstep.2.1
    exact ⟨hx, hy, hmemory.trans hmemory'.symm, hstep.2.2⟩
  · intro hconnected
    -- a chain does not leave the memory
    have hboth : o'.backingIndex = entry.1 ∧
        Chained TrackedObject.offset TrackedObject.captureEnd clusters.flatten o o' := by
      induction hconnected with
      | refl => exact ⟨ho, .refl⟩
      | tail _ hstep ih =>
          obtain ⟨hmemory, hchain⟩ := ih
          have hmemory' := hstep.2.2.1.symm.trans hmemory
          refine ⟨hmemory', hchain.tail ⟨?_, ?_, hstep.2.2.2⟩⟩
          · exact (h.mem_flatten_iff hentry).mpr ⟨hstep.1, hmemory⟩
          · exact (h.mem_flatten_iff hentry).mpr ⟨hstep.2.1, hmemory'⟩
    exact hboth.2

/-- The lookup of the object names the group. -/
def InGroup (a : Aliases) (i : Nat) (o : TrackedObject) : Prop :=
  ∃ offset, a.lookup o.key = some ⟨some i, offset⟩

/-- The lookups of both objects name the same group. -/
def SameGroup (a : Aliases) (o o' : TrackedObject) : Prop :=
  ∃ i, InGroup a i o ∧ InGroup a i o'

/-- What a pass that does not abort has formed. -/
structure Formed (device : Nat) (objects : TraceObjects) (a : Aliases)
    (formed : List (List TrackedObject)) : Prop where
  grouped : Grouped formed a
  cluster : ∀ members ∈ formed, ∃ entry ∈ memoryObjects (captured device objects), ∃ clusters,
    ClustersOf entry clusters ∧ members ∈ clusters ∧ members.length > 1
  complete : ∀ entry ∈ memoryObjects (captured device objects), ∃ clusters,
    ClustersOf entry clusters ∧ ∀ members ∈ clusters, members.length > 1 → members ∈ formed

theorem prepare_spec {a : Aliases} (h : prepareAliasGroups device objects = .ok a) :
    ∃ formed, Formed device objects a formed := by
  obtain ⟨formed, hgrouped, hcluster, hcomplete⟩ := sweepAll_spec h (.initial objects)
  exact ⟨formed, by simpa using hgrouped, hcluster, hcomplete⟩

namespace Formed

variable {a : Aliases} {formed : List (List TrackedObject)} {members : List TrackedObject}
  {i : Nat}

theorem mem_captured (h : Formed device objects a formed) (hmembers : members ∈ formed)
    (ho : o ∈ members) : o ∈ captured device objects := by
  obtain ⟨entry, hentry, clusters, hof, hmem, -⟩ := h.cluster members hmembers
  exact ((hof.mem_flatten_iff hentry).mp (List.mem_flatten.mpr ⟨members, hmem, ho⟩)).1

/-- The objects whose lookup names a group are its members. -/
theorem inGroup_iff (h : Formed device objects a formed)
    (ho : o ∈ captured device objects) :
    InGroup a i o ↔ ∃ members, formed[i]? = some members ∧ o ∈ members := by
  constructor
  · rintro ⟨offset, hlookup⟩
    obtain ⟨members, o', hformed, ho', hkey⟩ := h.grouped.origin o.key i offset hlookup
    have heq := key_injective (h.mem_captured (List.mem_of_getElem? hformed) ho') ho hkey
    exact ⟨members, hformed, heq ▸ ho'⟩
  · rintro ⟨members, hformed, ho⟩
    have hlt := (List.getElem?_eq_some_iff.mp hformed).1
    rw [← h.grouped.length] at hlt
    exact ⟨_, h.grouped.member i _ members (List.getElem?_eq_getElem hlt) hformed o ho⟩

/-- The lookup of a member names its group and its distance from the start of the group. -/
theorem lookup_spec (h : Formed device objects a formed) (ho : o ∈ captured device objects)
    {offset : Nat} (hlookup : a.lookup o.key = some ⟨some i, offset⟩) :
    ∃ g members, a.groups[i]? = some g ∧ formed[i]? = some members ∧ o ∈ members ∧
      Describes g members ∧ g.captureOffset + offset = o.offset := by
  obtain ⟨members, hmembers, hmem⟩ := (h.inGroup_iff ho).mp ⟨offset, hlookup⟩
  have hlt := (List.getElem?_eq_some_iff.mp hmembers).1
  rw [← h.grouped.length] at hlt
  have hg := List.getElem?_eq_getElem hlt
  have hdescribes := h.grouped.describes i _ members hg hmembers
  have hsome := h.grouped.member i _ members hg hmembers o hmem
  rw [hlookup] at hsome
  have hoffset : offset = o.offset - a.groups[i].captureOffset := by
    cases hsome
    rfl
  have hle : a.groups[i].captureOffset ≤ o.offset := hdescribes.least.2 ⟨o, hmem, rfl⟩
  exact ⟨_, members, hg, hmembers, hmem, hdescribes, by omega⟩

/-- Two objects are in one group exactly if they are members of one. -/
theorem sameGroup_iff (h : Formed device objects a formed)
    (ho : o ∈ captured device objects) (ho' : o' ∈ captured device objects) :
    SameGroup a o o' ↔ ∃ members ∈ formed, o ∈ members ∧ o' ∈ members := by
  constructor
  · rintro ⟨i, hi, hi'⟩
    obtain ⟨members, hformed, hmem⟩ := (h.inGroup_iff ho).mp hi
    obtain ⟨members', hformed', hmem'⟩ := (h.inGroup_iff ho').mp hi'
    cases hformed.symm.trans hformed'
    exact ⟨members, List.mem_of_getElem? hformed, hmem, hmem'⟩
  · rintro ⟨members, hmembers, hmem, hmem'⟩
    obtain ⟨i, hformed⟩ := List.getElem?_of_mem hmembers
    exact ⟨i, (h.inGroup_iff ho).mpr ⟨members, hformed, hmem⟩,
      (h.inGroup_iff ho').mpr ⟨members, hformed, hmem'⟩⟩

/-- **Groups and chains.** -/
theorem sameGroup_iff_connected (h : Formed device objects a formed)
    (ho : o ∈ captured device objects) (ho' : o' ∈ captured device objects) (hne : o ≠ o') :
    SameGroup a o o' ↔ Connected (captured device objects) o o' := by
  have hpos : ∀ {entry clusters}, entry ∈ memoryObjects (captured device objects) →
      ClustersOf entry clusters →
      ∀ x ∈ clusters.flatten, x.offset < x.captureEnd := by
    intro entry clusters hentry hof x hx
    exact reqSize_pos_of_mem ((hof.mem_flatten_iff hentry).mp hx).1
  rw [h.sameGroup_iff ho ho']
  constructor
  · rintro ⟨members, hmembers, hmem, hmem'⟩
    obtain ⟨entry, hentry, clusters, hof, hcluster, -⟩ := h.cluster members hmembers
    have hflat : o ∈ clusters.flatten := List.mem_flatten.mpr ⟨members, hcluster, hmem⟩
    rw [← hof.chained_iff hentry ((hof.mem_flatten_iff hentry).mp hflat).2]
    exact hof.2.chained (hpos hentry hof) hcluster hmem hmem'
  · intro hconnected
    have hentry : (o.backingIndex, (captured device objects).filter
        fun x => x.backingIndex = o.backingIndex) ∈ memoryObjects (captured device objects) :=
      mem_memoryObjects_iff.mpr ⟨⟨o, ho, rfl⟩, rfl⟩
    obtain ⟨clusters, hof, hformed⟩ := h.complete _ hentry
    have hflat : o ∈ clusters.flatten := (hof.mem_flatten_iff hentry).mpr ⟨ho, rfl⟩
    rw [← hof.chained_iff hentry rfl] at hconnected
    obtain ⟨members, hmembers, hmem, hmem'⟩ :=
      (hof.2.together_iff_chained (hpos hentry hof) hflat).mpr hconnected
    refine ⟨members, hformed members hmembers ?_, hmem, hmem'⟩
    -- a cluster with two different objects is no single object
    match members with
    | [] => cases hmem
    | [x] =>
        have heq := (List.mem_singleton.mp hmem).trans (List.mem_singleton.mp hmem').symm
        exact absurd heq hne
    | _ :: _ :: _ => simp

theorem captured_nodup (device : Nat) (objects : TraceObjects) :
    (captured device objects).Nodup := by
  have hdisjoint : ∀ {l l' : List TrackedObject} {type type' : ObjectType},
      (∀ o ∈ l, o.objectType = type) → (∀ o ∈ l', o.objectType = type') → type ≠ type' →
      (l.filter (isCaptured device)).Disjoint (l'.filter (isCaptured device)) := by
    intro l l' type type' hl hl' hne x hx hx'
    exact hne ((hl x (List.mem_filter.mp hx).1).symm.trans (hl' x (List.mem_filter.mp hx').1))
  unfold captured
  rw [List.nodup_append', List.nodup_append', List.disjoint_append_left]
  refine ⟨⟨objects.image_nodup.of_map.filter _, objects.buffer_nodup.of_map.filter _, ?_⟩,
    objects.tensor_nodup.of_map.filter _, ?_, ?_⟩
  · exact hdisjoint objects.image_type objects.buffer_type (by decide)
  · exact hdisjoint objects.image_type objects.tensor_type (by decide)
  · exact hdisjoint objects.buffer_type objects.tensor_type (by decide)

/-- A group has a second member. -/
theorem exists_other (h : Formed device objects a formed) (hmembers : members ∈ formed) :
    ∃ o' ∈ members, o' ≠ o := by
  obtain ⟨entry, hentry, clusters, hof, hcluster, hmany⟩ := h.cluster members hmembers
  have hnodup : members.Nodup := by
    apply List.Nodup.sublist (List.sublist_flatten_of_mem hcluster)
    rw [hof.1, (sortObjects_perm entry.2).nodup_iff, (mem_memoryObjects_iff.mp hentry).2]
    exact (captured_nodup device objects).filter _
  match members with
  | [] => cases hmany
  | [x] => simp at hmany
  | first :: second :: rest =>
      have hne : second ≠ first := fun heq => by simp [heq] at hnodup
      by_cases hfirst : first = o
      · exact ⟨second, by simp, hfirst ▸ hne⟩
      · exact ⟨first, by simp, hfirst⟩

/-- An object that overlaps no other one is in no group. -/
theorem not_inGroup (h : Formed device objects a formed) (ho : o ∈ captured device objects)
    (halone : ∀ o' ∈ captured device objects, o' ≠ o → ¬ CaptureOverlap o o') :
    ¬ InGroup a i o := by
  intro hin
  obtain ⟨members, hformed, hmem⟩ := (h.inGroup_iff ho).mp hin
  have hmembers := List.mem_of_getElem? hformed
  obtain ⟨o', hmem', hne⟩ := h.exists_other hmembers
  have ho' := h.mem_captured hmembers hmem'
  have hconnected := (h.sameGroup_iff_connected ho ho' hne.symm).mp
    ((h.sameGroup_iff ho ho').mpr ⟨members, hmembers, hmem, hmem'⟩)
  -- a chain from such an object stays at it
  have hstay : ∀ x, Connected (captured device objects) o x → x = o := by
    intro x hchain
    induction hchain with
    | refl => rfl
    | tail _ hstep ih =>
        by_contra hother
        exact halone _ hstep.2.1 hother (ih ▸ hstep.2.2)
  exact hne (hstay o' hconnected)

/-- The captured objects of a group are its members. -/
theorem inGroup_members (h : Formed device objects a formed) (hformed : formed[i]? = some members)
    {P : TrackedObject → Prop} :
    (∃ o ∈ captured device objects, InGroup a i o ∧ P o) ↔ ∃ o ∈ members, P o := by
  constructor
  · rintro ⟨o, ho, hin, hP⟩
    obtain ⟨members', hformed', hmem⟩ := (h.inGroup_iff ho).mp hin
    cases hformed.symm.trans hformed'
    exact ⟨o, hmem, hP⟩
  · rintro ⟨o, hmem, hP⟩
    have ho := h.mem_captured (List.mem_of_getElem? hformed) hmem
    exact ⟨o, ho, (h.inGroup_iff ho).mpr ⟨members, hformed, hmem⟩, hP⟩

end Formed

/-! ### The order of the input vectors -/

/-- The sorted order of objects with different lookup entries is unique. -/
theorem sortObjects_eq_of_perm {l l' : List TrackedObject} (hperm : l.Perm l')
    (hinj : ∀ o ∈ l, ∀ o' ∈ l, o.key = o'.key → o = o') : sortObjects l = sortObjects l' := by
  apply List.Perm.eq_of_pairwise _ (sortObjects_rank l) (sortObjects_rank l')
  · exact (sortObjects_perm l).trans (hperm.trans (sortObjects_perm l').symm)
  · intro o o' ho ho' hle hge
    rw [(sortObjects_perm l).mem_iff] at ho
    rw [(sortObjects_perm l').mem_iff, ← hperm.mem_iff] at ho'
    have hrank := le_antisymm hle hge
    simp only [rank, toLex_inj, Prod.mk.injEq] at hrank
    exact hinj o ho o' ho' (Prod.ext (value_injective hrank.2.1) hrank.2.2)

theorem sweepAll_congr {keys : List Nat} {objectsOf objectsOf' : Nat → List TrackedObject}
    (hsort : ∀ memory, sortObjects (objectsOf memory) = sortObjects (objectsOf' memory))
    (a : Aliases) :
    sweepAll (keys.map fun memory => (memory, objectsOf memory)) a =
      sweepAll (keys.map fun memory => (memory, objectsOf' memory)) a := by
  induction keys generalizing a with
  | nil => rfl
  | cons memory rest ih =>
      have hlength : (objectsOf memory).length = (objectsOf' memory).length := by
        rw [← (sortObjects_perm _).length_eq, hsort, (sortObjects_perm _).length_eq]
      simp only [List.map_cons, sweepAll, hsort, hlength]
      split
      · rfl
      · exact ih _

/-- **The order of the input vectors does not matter.** -/
theorem prepareAliasGroups_perm {objects' : TraceObjects}
    (himages : objects.images.Perm objects'.images)
    (hbuffers : objects.buffers.Perm objects'.buffers)
    (htensors : objects.tensors.Perm objects'.tensors) :
    prepareAliasGroups device objects' = prepareAliasGroups device objects := by
  have hperm : (captured device objects).Perm (captured device objects') :=
    ((himages.filter _).append (hbuffers.filter _)).append (htensors.filter _)
  have hkeys : ((captured device objects').map TrackedObject.backingIndex).dedup.insertionSort
      (· ≤ ·) = ((captured device objects).map TrackedObject.backingIndex).dedup.insertionSort
      (· ≤ ·) := by
    apply List.Perm.eq_of_pairwise' (List.pairwise_insertionSort _ _)
      (List.pairwise_insertionSort _ _)
    exact (List.perm_insertionSort _ _).trans
      (((hperm.symm.map _).dedup).trans (List.perm_insertionSort _ _).symm)
  have hinitial : initial objects' = initial objects := by
    simp only [initial, himages.length_eq, hbuffers.length_eq, htensors.length_eq]
  unfold prepareAliasGroups memoryObjects
  rw [hkeys, hinitial]
  apply sweepAll_congr
  intro memory
  apply sortObjects_eq_of_perm (hperm.symm.filter _)
  intro o ho o' ho' hkey
  rw [List.mem_filter, ← hperm.mem_iff] at ho ho'
  exact key_injective ho.1 ho'.1 hkey

end Objects

/-- **Alias groups are the connected components of captured overlap.**  Take any images,
buffers and tensors of a trace for which the pass does not abort.

* Two captured objects are in the same group exactly when a chain of objects connects
  them, each of which overlaps the next one.
* An object that overlaps no other one is in no group.
* The stored offset of a member is its captured offset minus the smallest one of its
  group, it is a multiple of the member's alignment at replay, and the member's size at
  replay fits behind it.
* The memory type bits of a group are the intersection, its alignment is the maximum
  over the members.
* Another order of the three vectors gives the same groups and lookup tables. -/
theorem alias_groups_are_components {device : Nat} {objects : TraceObjects} {a : Aliases}
    (h : prepareAliasGroups device objects = .ok a) :
    (∀ o ∈ captured device objects, ∀ o' ∈ captured device objects, o ≠ o' →
      (SameGroup a o o' ↔ Connected (captured device objects) o o')) ∧
    (∀ o ∈ captured device objects,
      (∀ o' ∈ captured device objects, o' ≠ o → ¬ CaptureOverlap o o') →
        ∀ i, ¬ InGroup a i o) ∧
    (∀ o ∈ captured device objects, ∀ (i offset : Nat),
      a.lookup o.key = some ⟨some i, offset⟩ →
        ∃ g least, a.groups[i]? = some g ∧
          IsLeast { x | ∃ o' ∈ captured device objects, InGroup a i o' ∧ o'.offset = x } least ∧
          least + offset = o.offset ∧ o.reqs.alignment ∣ offset ∧
          offset + o.reqs.size ≤ g.size) ∧
    (∀ (i : Nat) g, a.groups[i]? = some g →
      (∀ n, g.reqs.memoryTypeBits.getLsbD n = true ↔
        ∀ o ∈ captured device objects, InGroup a i o →
          o.reqs.memoryTypeBits.getLsbD n = true) ∧
      IsGreatest { x | ∃ o ∈ captured device objects, InGroup a i o ∧ o.reqs.alignment = x }
        g.alignment ∧
      g.reqs.alignment = g.alignment ∧ g.reqs.size = g.size) ∧
    (∀ objects' : TraceObjects, objects.images.Perm objects'.images →
      objects.buffers.Perm objects'.buffers → objects.tensors.Perm objects'.tensors →
        prepareAliasGroups device objects' = .ok a) := by
  obtain ⟨formed, hformed⟩ := prepare_spec h
  refine ⟨?_, ?_, ?_, ?_, ?_⟩
  · intro o ho o' ho' hne
    exact hformed.sameGroup_iff_connected ho ho' hne
  · intro o ho halone i
    exact hformed.not_inGroup ho halone
  · intro o ho i offset hlookup
    obtain ⟨g, members, hg, hmembers, hmem, hdescribes, hoffset⟩ :=
      hformed.lookup_spec ho hlookup
    have heq : offset = o.offset - g.captureOffset := by omega
    refine ⟨g, g.captureOffset, hg, ?_, hoffset, ?_, ?_⟩
    · simpa only [hformed.inGroup_members hmembers] using hdescribes.least
    · rw [heq]
      exact hdescribes.aligned o hmem
    · rw [heq]
      exact hdescribes.fits o hmem
  · intro i g hg
    have hlt := (List.getElem?_eq_some_iff.mp hg).1
    rw [hformed.grouped.length] at hlt
    have hmembers := List.getElem?_eq_getElem hlt
    have hdescribes := hformed.grouped.describes i g _ hg hmembers
    refine ⟨fun n => ?_, ?_, hdescribes.reqs_alignment, hdescribes.reqs_size⟩
    · rw [hdescribes.bits]
      constructor
      · intro hbits o ho hin
        obtain ⟨members, hmembers', hmem⟩ := (hformed.inGroup_iff ho).mp hin
        cases hmembers.symm.trans hmembers'
        exact hbits o hmem
      · intro hbits o hmem
        have ho := hformed.mem_captured (List.mem_of_getElem? hmembers) hmem
        exact hbits o ho ((hformed.inGroup_iff ho).mpr ⟨_, hmembers, hmem⟩)
    · simpa only [hformed.inGroup_members hmembers] using hdescribes.alignment
  · intro objects' himages hbuffers htensors
    rw [prepareAliasGroups_perm himages hbuffers htensors]
    exact h

/-- An image of sixteen bytes, a buffer that starts inside it and another buffer that
starts inside the first buffer; a third buffer touches the range of the second. -/
def chainOfThree : TraceObjects where
  images := [{ objectType := .image, index := 0, backingIndex := 4, offset := 32, reqSize := 16,
               reqs := { size := 16, alignment := 16, memoryTypeBits := 3 }, tiling := .optimal }]
  buffers :=
    [{ objectType := .buffer, index := 0, backingIndex := 4, offset := 48, reqSize := 16,
       reqs := { size := 16, alignment := 8, memoryTypeBits := 6 } },
     { objectType := .buffer, index := 1, backingIndex := 4, offset := 40, reqSize := 16,
       reqs := { size := 24, alignment := 4, memoryTypeBits := 2 } },
     { objectType := .buffer, index := 2, backingIndex := 4, offset := 64, reqSize := 16,
       reqs := { size := 16, alignment := 4, memoryTypeBits := 2 } }]
  tensors := []
  image_type := by decide
  buffer_type := by decide
  tensor_type := type_of_none .tensor
  image_nodup := by decide
  buffer_nodup := by decide
  tensor_nodup := nodup_of_none

/-- The image and the first buffer do not overlap, but the second buffer connects them. -/
theorem alias_groups_are_components_chainOfThree :
    ∃ a, prepareAliasGroups 0 chainOfThree = .ok a ∧
      ∀ o ∈ captured 0 chainOfThree, ∀ o' ∈ captured 0 chainOfThree, o ≠ o' →
        (SameGroup a o o' ↔ Connected (captured 0 chainOfThree) o o') := by
  have hrun : ∃ a, prepareAliasGroups 0 chainOfThree = .ok a := by
    have hok : (prepareAliasGroups 0 chainOfThree).isOk = true := by decide
    cases hprepare : prepareAliasGroups 0 chainOfThree with
    | error abort =>
        rw [hprepare] at hok
        cases hok
    | ok a => exact ⟨a, rfl⟩
  obtain ⟨a, ha⟩ := hrun
  exact ⟨a, ha, (alias_groups_are_components ha).1⟩

end AliasGroups
end Lavatube
