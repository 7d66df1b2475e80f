import Lavatube.AliasGroups
import Lavatube.Lib.OrderedMultimap
import Lavatube.Lib.Transition

/-!
# The objects bound in a memory

A memory lists the objects bound in it in a multimap `usage`, with their offsets as keys, and a
flush goes through the list.  `bind` enters an object behind the ones at its offset, and `unbind`
removes an entry at the offset of its object, the first one that is found.

* `bind`, `unbind`, `step` — the calls.
* `Queued` — at every offset, the list is the queue of the objects bound there.
* `usage_exact_iff` — when the list names the bound objects and no others.
* `unbind_enabled` — the search of `unbind` never comes back empty.
-/

namespace Lavatube
namespace MemoryUsage

open Transition
open AliasGroups (ObjectType)

/-- The fields of `trackedobject` that the calls read and write. -/
structure TrackedObject where
  objectType : ObjectType
  index : Nat
  backingIndex : Nat := 2 ^ 32 - 1
  size : Nat := 0
  offset : Nat := 0
  aliasType : ObjectType := .unknown
  aliasIndex : Nat := 2 ^ 32 - 1
  deriving DecidableEq, Repr

/-- The fields of `trackedmemory` that the calls read and write; an object is named by its
address. -/
structure TrackedMemory where
  index : Nat
  usage : OrderedMultimap Nat Nat

/-- The memory, the objects by their addresses, and the addresses of the objects that are bound,
in the order in which they were bound. -/
structure State where
  memory : TrackedMemory
  objects : Nat → TrackedObject
  bound : List Nat

/-- A memory in which nothing is bound. -/
def init (index : Nat) (objects : Nat → TrackedObject) : State :=
  ⟨⟨index, .empty⟩, objects, []⟩

/-- Objects that share an offset point to each other. -/
def shareOffset (objects : Nat → TrackedObject) (obj other : Nat) : Nat → TrackedObject :=
  let objects := Function.update objects other
    { objects other with
      aliasType := (objects obj).objectType
      aliasIndex := (objects obj).index }
  Function.update objects obj
    { objects obj with
      aliasType := (objects other).objectType
      aliasIndex := (objects other).index }

/-- `trackedmemory::bind`. -/
def bind (memory : TrackedMemory) (objects : Nat → TrackedObject) (obj : Nat) :
    TrackedMemory × (Nat → TrackedObject) :=
  let objects := Function.update objects obj
    { objects obj with backingIndex := memory.index }
  let aliased :=
    match memory.usage.find (objects obj).offset with
    | some (_, other) => shareOffset objects obj other
    | none => objects
  ({ memory with usage := memory.usage.insert (objects obj).offset obj }, aliased)

/-- `trackedmemory::unbind`; `none` when the assertion fails. -/
def unbind (memory : TrackedMemory) (obj : TrackedObject) : Option TrackedMemory :=
  match memory.usage.find obj.offset with
  | some _ => some { memory with usage := memory.usage.erase obj.offset }
  | none => none

/-- A call for one object. -/
inductive Label where
  | bind (obj offset size : Nat)
  | unbind (obj : Nat)
  deriving DecidableEq, Repr

/-- The calls around `bind` and `unbind`: the place of the object is written before it is bound,
an object that is bound is not bound again, and only a bound object is unbound. -/
def step (st : State) : Label → Option State
  | .bind obj offset size =>
      if obj ∈ st.bound then none
      else
        let objects := Function.update st.objects obj
          { st.objects obj with offset := offset, size := size }
        let result := bind st.memory objects obj
        some ⟨result.1, result.2, st.bound ++ [obj]⟩
  | .unbind obj =>
      if obj ∈ st.bound then
        match unbind st.memory (st.objects obj) with
        | some memory => some { st with memory := memory, bound := st.bound.erase obj }
        | none => none
      else none

/-- The objects that a flush of the mapped range goes into. -/
def flushVisits (st : State) (mappedStart mappedEnd : Nat) : List Nat :=
  (st.memory.usage.entries.filter fun pair =>
    ¬ mappedEnd < pair.1 ∧
      ¬ (pair.1 + (st.objects pair.2).size) % 2 ^ 64 ≤ mappedStart).map Prod.snd

/-- The bound objects at an offset, in the order in which they were bound. -/
def boundAt (st : State) (offset : Nat) : List Nat :=
  st.bound.filter fun obj => (st.objects obj).offset = offset

/-- The list has one entry for every bound object, under its offset, and no other entry. -/
structure UsageExact (st : State) : Prop where
  once : ∀ obj ∈ st.bound, st.memory.usage.entries.count ((st.objects obj).offset, obj) = 1
  only : ∀ pair ∈ st.memory.usage.entries,
    pair.2 ∈ st.bound ∧ pair.1 = (st.objects pair.2).offset

/-- A flush goes once into every bound object that meets its range, and into no other object. -/
def FlushExact (st : State) : Prop :=
  ∀ mappedStart mappedEnd obj,
    (flushVisits st mappedStart mappedEnd).count obj =
      if obj ∈ st.bound ∧ (st.objects obj).offset ≤ mappedEnd ∧
          mappedStart < ((st.objects obj).offset + (st.objects obj).size) % 2 ^ 64
        then 1 else 0

/-- An object is unbound before those that were bound at its offset after it. -/
def BoundFirst (st : State) : Label → Prop
  | .bind .. => True
  | .unbind obj => (boundAt st (st.objects obj).offset).head? = some obj

instance : ∀ label, Decidable (BoundFirst st label)
  | .bind .. => inferInstanceAs (Decidable True)
  | .unbind obj =>
      inferInstanceAs (Decidable ((boundAt st (st.objects obj).offset).head? = some obj))

/-- At every offset, the list is the queue of the objects bound there. -/
structure Queued (st : State) : Prop where
  nodup : st.bound.Nodup
  queue : ∀ offset, st.memory.usage.values offset = boundAt st offset

variable {st next : State} {obj other offset size : Nat} {label : Label}
variable {objects : Nat → TrackedObject} {memory : TrackedMemory}

/-! ### What the calls change -/

@[simp] theorem shareOffset_offset (p : Nat) :
    (shareOffset objects obj other p).offset = (objects p).offset := by
  unfold shareOffset
  by_cases hobj : p = obj
  · subst hobj
    by_cases hother : p = other
    · simp [hother]
    · simp [hother]
  · by_cases hother : p = other
    · subst hother
      simp [hobj]
    · simp [hobj, hother]

@[simp] theorem bind_usage :
    (bind memory objects obj).1.usage = memory.usage.insert (objects obj).offset obj := by
  simp [bind]

@[simp] theorem bind_offset (p : Nat) :
    ((bind memory objects obj).2 p).offset = (objects p).offset := by
  have hbacking : ∀ p, (Function.update objects obj
      { objects obj with backingIndex := memory.index } p).offset = (objects p).offset := by
    intro p
    by_cases hp : p = obj
    · simp [hp]
    · simp [hp]
  unfold bind
  dsimp only
  split
  · rw [shareOffset_offset, hbacking]
  · exact hbacking p

/-- A new object goes into the list, at its offset. -/
theorem step_bind (hstep : step st (.bind obj offset size) = some next) :
    obj ∉ st.bound ∧ next.bound = st.bound ++ [obj] ∧
      next.memory.usage = st.memory.usage.insert offset obj ∧
      (next.objects obj).offset = offset ∧
      ∀ p, p ≠ obj → (next.objects p).offset = (st.objects p).offset := by
  simp only [step] at hstep
  split_ifs at hstep with hbound
  cases hstep
  refine ⟨hbound, rfl, ?_, ?_, ?_⟩
  · simp
  · simp
  · intro p hp
    simp [hp]

/-- The first entry at the offset of the object goes out of the list. -/
theorem step_unbind (hstep : step st (.unbind obj) = some next) :
    obj ∈ st.bound ∧ next.bound = st.bound.erase obj ∧ next.objects = st.objects ∧
      next.memory.usage = st.memory.usage.erase (st.objects obj).offset := by
  simp only [step, unbind] at hstep
  split_ifs at hstep with hbound
  split at hstep
  · next hunbind =>
      cases hstep
      split at hunbind
      · cases hunbind
        exact ⟨hbound, rfl, rfl, rfl⟩
      · cases hunbind
  · cases hstep

/-! ### The queues -/

theorem mem_boundAt : other ∈ boundAt st offset ↔
    other ∈ st.bound ∧ (st.objects other).offset = offset := by
  simp [boundAt]

theorem boundAt_bind (hstep : step st (.bind obj offset size) = some next) (at' : Nat) :
    boundAt next at' = if at' = offset then boundAt st at' ++ [obj] else boundAt st at' := by
  obtain ⟨hobj, hbound, -, hself, hothers⟩ := step_bind hstep
  have hfront : st.bound.filter (fun p => decide ((next.objects p).offset = at')) =
      boundAt st at' := by
    refine List.filter_congr fun p hp => ?_
    rw [hothers p (fun h => hobj (h ▸ hp))]
  unfold boundAt
  rw [hbound, List.filter_append, hfront]
  by_cases hat : at' = offset
  · simp [boundAt, hat, hself]
  · simp [boundAt, hself, hat, Ne.symm hat]

theorem boundAt_unbind (hnodup : st.bound.Nodup)
    (hstep : step st (.unbind obj) = some next) (at' : Nat) :
    boundAt next at' = if at' = (st.objects obj).offset then (boundAt st at').erase obj
      else boundAt st at' := by
  obtain ⟨hobj, hbound, hobjects, -⟩ := step_unbind hstep
  have herase : boundAt next at' = (boundAt st at').erase obj := by
    unfold boundAt
    rw [hbound, hobjects, hnodup.erase_eq_filter, List.filter_filter,
      (hnodup.filter _).erase_eq_filter, List.filter_filter]
    refine List.filter_congr fun p _ => ?_
    rw [Bool.and_comm]
  rw [herase]
  split_ifs with hat
  · rfl
  · refine List.erase_of_not_mem fun hmem => hat ?_
    exact (mem_boundAt.mp hmem).2.symm

theorem queued_init (index : Nat) (objects : Nat → TrackedObject) :
    Queued (init index objects) where
  nodup := List.nodup_nil
  queue := fun _ => rfl

/-- The entry that goes out of the queue is the one of the object. -/
theorem BoundFirst.tail_eq (hfirst : BoundFirst st (.unbind obj)) :
    (boundAt st (st.objects obj).offset).tail =
      (boundAt st (st.objects obj).offset).erase obj := by
  obtain ⟨rest, hqueue⟩ := List.head?_eq_some_iff.mp hfirst
  rw [hqueue, List.tail_cons, List.erase_cons_head]

theorem step_queued (hqueued : Queued st) (hfirst : BoundFirst st label)
    (hstep : step st label = some next) : Queued next := by
  cases label with
  | bind obj offset size =>
      obtain ⟨hobj, hbound, husage, -, -⟩ := step_bind hstep
      constructor
      · rw [hbound]
        exact hqueued.nodup.append (List.nodup_singleton _)
          (List.disjoint_singleton.mpr hobj)
      · intro at'
        rw [husage, OrderedMultimap.values_insert, boundAt_bind hstep, hqueued.queue]
  | unbind obj =>
      obtain ⟨-, hbound, -, husage⟩ := step_unbind hstep
      have htail := hfirst.tail_eq
      constructor
      · rw [hbound]
        exact hqueued.nodup.erase obj
      · intro at'
        rw [husage, OrderedMultimap.values_erase, boundAt_unbind hqueued.nodup hstep,
          hqueued.queue]
        split_ifs with hat
        · rw [hat, htail]
        · rfl

/-! ### The list and the bound objects -/

theorem Queued.count_eq (hqueued : Queued st) (pair : Nat × Nat) :
    st.memory.usage.entries.count pair =
      if pair.2 ∈ st.bound ∧ (st.objects pair.2).offset = pair.1 then 1 else 0 := by
  obtain ⟨offset, obj⟩ := pair
  have hnodup : (boundAt st offset).Nodup := hqueued.nodup.filter _
  rw [OrderedMultimap.count_entries, hqueued.queue, hnodup.count]
  simp only [mem_boundAt]

theorem Queued.usageExact (hqueued : Queued st) : UsageExact st where
  once := fun obj hobj => by
    rw [hqueued.count_eq, if_pos ⟨hobj, rfl⟩]
  only := fun pair hpair => by
    have hpos := List.count_pos_iff.mpr hpair
    rw [hqueued.count_eq] at hpos
    obtain ⟨hbound, hoffset⟩ := (ite_ne_right_iff.mp hpos.ne').1
    exact ⟨hbound, hoffset.symm⟩

/-- The entry that goes out is the one of the object, if the list is exact afterwards. -/
theorem boundFirst_of_usageExact (hqueued : Queued st)
    (hstep : step st label = some next) (hexact : UsageExact next) : BoundFirst st label := by
  cases label with
  | bind => trivial
  | unbind obj =>
      obtain ⟨hobj, hbound, hobjects, husage⟩ := step_unbind hstep
      have hmem : obj ∈ boundAt st (st.objects obj).offset := mem_boundAt.mpr ⟨hobj, rfl⟩
      -- the object is not bound any more, so it is not in the rest of the queue
      have hgone : obj ∉ (boundAt st (st.objects obj).offset).tail := by
        intro htail
        have hentry : ((st.objects obj).offset, obj) ∈ next.memory.usage.entries := by
          rw [OrderedMultimap.mem_entries_iff, husage, OrderedMultimap.values_erase, if_pos rfl,
            hqueued.queue]
          exact htail
        have hstill := (hexact.only _ hentry).1
        rw [hbound] at hstill
        exact (hqueued.nodup.not_mem_erase) hstill
      show (boundAt st (st.objects obj).offset).head? = some obj
      cases hqueue : boundAt st (st.objects obj).offset with
      | nil =>
          rw [hqueue] at hmem
          exact absurd hmem List.not_mem_nil
      | cons first rest =>
          rw [hqueue] at hmem hgone
          rcases List.mem_cons.mp hmem with rfl | hrest
          · rfl
          · exact absurd hrest hgone

theorem UsageExact.flushExact (hexact : UsageExact st) : FlushExact st := by
  intro mappedStart mappedEnd obj
  have hvisited : (flushVisits st mappedStart mappedEnd).count obj =
      st.memory.usage.entries.countP fun pair => pair = ((st.objects obj).offset, obj) ∧
        ¬ mappedEnd < (st.objects obj).offset ∧
          ¬ ((st.objects obj).offset + (st.objects obj).size) % 2 ^ 64 ≤ mappedStart := by
    unfold flushVisits
    rw [List.count_eq_countP, List.countP_map, List.countP_filter]
    refine List.countP_congr fun pair hpair => ?_
    obtain ⟨offset, other⟩ := pair
    obtain rfl : offset = (st.objects other).offset := (hexact.only _ hpair).2
    by_cases hother : other = obj
    · simp [hother]
    · simp [hother]
  rw [hvisited]
  by_cases hmeets : (st.objects obj).offset ≤ mappedEnd ∧
      mappedStart < ((st.objects obj).offset + (st.objects obj).size) % 2 ^ 64
  · rw [if_congr (and_iff_left hmeets) rfl rfl]
    simp only [not_lt.mpr hmeets.1, not_le.mpr hmeets.2, not_false_eq_true, and_true]
    have hcount : (st.memory.usage.entries.countP fun pair =>
        pair = ((st.objects obj).offset, obj)) =
          st.memory.usage.entries.count ((st.objects obj).offset, obj) := by
      rw [List.count_eq_countP]
      exact List.countP_congr fun pair _ => by simp
    rw [hcount]
    split_ifs with hbound
    · exact hexact.once obj hbound
    · refine List.count_eq_zero.mpr fun hentry => hbound ?_
      exact (hexact.only _ hentry).1
  · rw [if_neg fun h => hmeets h.2, List.countP_eq_zero]
    intro pair _ hpair
    refine hmeets ?_
    simp only [decide_eq_true_eq, not_lt, not_le] at hpair
    exact hpair.2

/-- **The list of the bound objects.**  After every call of a run the list has one entry for every
bound object and no other entry, and a flush goes into the bound objects that meet its range,
exactly if each object is unbound before those that were bound at its offset after it. -/
theorem usage_exact_iff {index : Nat} {labels : List Label} {final : State}
    (hexec : exec step (init index objects) labels = some final) :
    (∀ k middle, exec step (init index objects) (labels.take k) = some middle →
      UsageExact middle ∧ FlushExact middle) ↔
      Along step BoundFirst (init index objects) labels := by
  have hinit : Queued (init index objects) := queued_init index objects
  refine prefixes_iff_along ?_ ?_ ?_ hinit hexec
  · intro st hqueued
    exact ⟨hqueued.usageExact, hqueued.usageExact.flushExact⟩
  · intro st label next hqueued hfirst hstep
    exact step_queued hqueued hfirst hstep
  · intro st label next hqueued hstep hexact
    exact boundFirst_of_usageExact hqueued hstep hexact.1

/-- Two buffers at one offset. -/
def aliasedBuffers (obj : Nat) : TrackedObject := { objectType := .buffer, index := obj }

/-- The buffer that was bound first is unbound first. -/
def unboundInOrder : List Label :=
  [.bind 0 64 16, .bind 1 64 16, .unbind 0, .bind 0 0 16, .unbind 1]

theorem usage_exact_unboundInOrder :
    ∃ final, exec step (init 0 aliasedBuffers) unboundInOrder = some final ∧
      ∀ k middle, exec step (init 0 aliasedBuffers) (unboundInOrder.take k) = some middle →
        UsageExact middle ∧ FlushExact middle := by
  have hruns : (exec step (init 0 aliasedBuffers) unboundInOrder).isSome := by decide
  obtain ⟨final, hexec⟩ := Option.isSome_iff_exists.mp hruns
  exact ⟨final, hexec, (usage_exact_iff hexec).mpr (by decide)⟩

/-- The buffer that was bound second is unbound first. -/
def unboundOutOfOrder : List Label := [.bind 0 64 16, .bind 1 64 16, .unbind 1]

/-- The list keeps the buffer that was unbound and has lost the other one. -/
theorem usage_not_exact_unboundOutOfOrder :
    ¬ ∀ (index : Nat) (objects : Nat → TrackedObject) (labels : List Label) (final : State),
      exec step (init index objects) labels = some final → UsageExact final := by
  intro hall
  have hruns : (exec step (init 0 aliasedBuffers) unboundOutOfOrder).isSome := by decide
  obtain ⟨final, hexec⟩ := Option.isSome_iff_exists.mp hruns
  have hlist : (exec step (init 0 aliasedBuffers) unboundOutOfOrder).map
      (fun st => (st.memory.usage.entries, st.bound)) = some ([(64, 1)], [0]) := by decide
  rw [hexec, Option.map_some, Option.some_inj, Prod.mk.injEq] at hlist
  have hentry := (hall _ _ _ final hexec).only (64, 1) (by rw [hlist.1]; decide)
  rw [hlist.2] at hentry
  exact absurd hentry.1 (by decide)

/-! ### The assertion of `unbind` -/

/-- At every offset, the list has as many entries as there are objects bound. -/
structure Balanced (st : State) : Prop where
  nodup : st.bound.Nodup
  length : ∀ offset, (st.memory.usage.values offset).length = (boundAt st offset).length

theorem step_balanced (hbalanced : Balanced st) (hstep : step st label = some next) :
    Balanced next := by
  cases label with
  | bind obj offset size =>
      obtain ⟨hobj, hbound, husage, -, -⟩ := step_bind hstep
      constructor
      · rw [hbound]
        exact hbalanced.nodup.append (List.nodup_singleton _)
          (List.disjoint_singleton.mpr hobj)
      · intro at'
        rw [husage, OrderedMultimap.values_insert, boundAt_bind hstep]
        split_ifs with hat
        · simp [hbalanced.length]
        · exact hbalanced.length at'
  | unbind obj =>
      obtain ⟨hobj, hbound, -, husage⟩ := step_unbind hstep
      constructor
      · rw [hbound]
        exact hbalanced.nodup.erase obj
      · intro at'
        rw [husage, OrderedMultimap.values_erase, boundAt_unbind hbalanced.nodup hstep]
        split_ifs with hat
        · subst hat
          rw [List.length_tail, List.length_erase_of_mem (mem_boundAt.mpr ⟨hobj, rfl⟩),
            hbalanced.length]
        · exact hbalanced.length at'

/-- In every run, whatever the order, the search of `unbind` finds an entry. -/
theorem unbind_enabled {index : Nat} {labels : List Label}
    (hexec : exec step (init index objects) labels = some st) (hobj : obj ∈ st.bound) :
    ∃ next, step st (.unbind obj) = some next := by
  have hinit : Balanced (init index objects) := ⟨List.nodup_nil, fun _ => rfl⟩
  have hbalanced := exec_invariant_of_step (fun _ _ _ => step_balanced) hinit hexec
  have hsome : (st.memory.usage.find (st.objects obj).offset).isSome := by
    rw [OrderedMultimap.find_isSome_iff, ← List.length_pos_iff, hbalanced.length]
    exact List.length_pos_of_mem (mem_boundAt.mpr ⟨hobj, rfl⟩)
  obtain ⟨found, hfound⟩ := Option.isSome_iff_exists.mp hsome
  simp [step, unbind, hobj, hfound]

end MemoryUsage
end Lavatube
