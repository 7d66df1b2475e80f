import Lavatube.Lib.Transition

/-!
# Handle maps of the tracer

The `trace_remap` of `containers.h`: a lookup from live handles to tracked objects,
the objects of all handles ever added in the order of their indices, and the counter
that gives out indices where the caller does not ask for one.

* `Remap.apply` — a call and its answer; `none` is a failed assertion, an exception of the
  lookup or a null pointer that is written to.
* `Remap.insertSorted` — the place that `lower_bound` finds, with the assertion behind it.
* `sinceClear`, `adds`, `LastAdd` — what a run did since the last `clear`.
* `Books` — what the three containers say about that.
* `Proper` — the calls that the class allows.
* `bookkeeping` — the books of every run, and an answer for every proper call.
-/

namespace Lavatube
namespace TraceRemap

open Transition

/-- `struct change_source`. -/
structure ChangeSource where
  packet : Nat := 2 ^ 32 - 1
  frame : Nat := 2 ^ 32 - 1
  thread : Nat := 2 ^ 8 - 1
  packetType : Nat := 2 ^ 8 - 1
  callId : Nat := 2 ^ 16 - 1
  deriving DecidableEq, Repr

/-- The fields of the tracked object that the map writes. -/
structure Tracked where
  index : Nat := 2 ^ 32 - 1
  creation : ChangeSource := {}
  lastModified : ChangeSource := {}
  destroyed : ChangeSource := {}
  deriving DecidableEq, Repr

/-- `CONTAINER_INVALID_INDEX`: the caller asks for no index. -/
def invalidIndex : BitVec 32 := BitVec.allOnes 32

/-- `CONTAINER_NULL_VALUE`. -/
def nullValue : Nat := 2 ^ 32 - 2

/-- A pointer to a tracked object, by the number of objects allocated before it. -/
abbrev Pointer := Nat

/-- `index_mode`. -/
inductive IndexMode where
  | unknown
  | automatic
  | desired
  deriving DecidableEq, Repr

/-- `requested_mode` of a call of `add`. -/
def requestedMode (desiredIndex : BitVec 32) : IndexMode :=
  if desiredIndex ≠ invalidIndex then .desired else .automatic

/-- `class trace_remap`, with the objects that its pointers lead to.  A key that the lookup
does not hold has `none`, a key that was unset has a null pointer. -/
structure Remap (T : Type) where
  lookup : T → Option (Option Pointer)
  storage : List Pointer := []
  size : Nat := 0
  mode : IndexMode := .unknown
  heap : Pointer → Tracked := fun _ => {}
  next : Pointer := 0

section Maps

variable {T : Type} [DecidableEq T] [Zero T]

/-- The lookup with the special case for `VK_NULL_HANDLE`. -/
def emptyLookup : T → Option (Option Pointer) := Function.update (fun _ => none) 0 (some none)

namespace Remap

/-- The constructor. -/
def init : Remap T := { lookup := emptyLookup }

/-- The index of the object. -/
def indexOf (r : Remap T) (p : Pointer) : Nat := (r.heap p).index

/-- The insertion into `storage`: `lower_bound` by the index, the assertion that the index is
not there yet, and the insertion in front of that place. -/
def insertSorted (indexOf : Pointer → Nat) (storage : List Pointer) (p : Pointer) :
    Option (List Pointer) :=
  let front := storage.takeWhile fun q => indexOf q < indexOf p
  match storage.dropWhile fun q => indexOf q < indexOf p with
  | [] => some (front ++ [p])
  | q :: back => if indexOf q = indexOf p then none else some (front ++ p :: q :: back)

/-- `trace_remap::add`. -/
def add (r : Remap T) (key : T) (current : ChangeSource) (desiredIndex : BitVec 32) :
    Option (Remap T × Pointer) :=
  if key = 0 then none
  else
    let mode := if r.mode = .unknown then requestedMode desiredIndex else r.mode
    if mode ≠ requestedMode desiredIndex then none
    else
      let p := r.next
      let index := if desiredIndex ≠ invalidIndex then desiredIndex.toNat else r.size
      let size := if desiredIndex ≠ invalidIndex then r.size else (r.size + 1) % 2 ^ 32
      let heap := Function.update r.heap p
        { index := index, creation := current, lastModified := current }
      match insertSorted (fun q => (heap q).index) r.storage p with
      | none => none
      | some storage =>
          some ({ lookup := Function.update r.lookup key (some (some p))
                  storage := storage
                  size :=
                    if desiredIndex ≠ invalidIndex then max size (desiredIndex + 1).toNat else size
                  mode := mode
                  heap := heap
                  next := r.next + 1 }, p)

/-- `trace_remap::unset`. -/
def unset (r : Remap T) (key : T) (current : ChangeSource) : Option (Remap T × Option Pointer) :=
  if key = 0 then some (r, none)
  else
    match r.lookup key with
    | some (some p) =>
        some ({ r with
          heap := Function.update r.heap p { r.heap p with destroyed := current }
          lookup := Function.update r.lookup key (some none) }, some p)
    | _ => none

/-- `trace_remap::at`. -/
def at' (r : Remap T) (key : T) : Option (Option Pointer) := r.lookup key

/-- `trace_remap::index_or_null`. -/
def indexOrNull (r : Remap T) (key : T) : Option Nat :=
  if key = 0 then some nullValue
  else
    match r.lookup key with
    | some (some p) => some (r.indexOf p)
    | _ => none

/-- `trace_remap::contains`. -/
def contains (r : Remap T) (key : T) : Bool :=
  decide (key ≠ 0) &&
    match r.lookup key with
    | some (some _) => true
    | _ => false

/-- `trace_remap::clear`. -/
def clear (r : Remap T) : Remap T :=
  { r with lookup := emptyLookup, storage := [], size := 0, mode := .unknown }

end Remap

/-- The calls of the map. -/
inductive Call (T : Type) where
  | add (key : T) (current : ChangeSource) (desiredIndex : BitVec 32)
  | unset (key : T) (current : ChangeSource)
  | at' (key : T)
  | contains (key : T)
  | clear
  deriving DecidableEq, Repr

/-- What a call returns. -/
inductive Answer where
  | object (p : Option Pointer)
  | found (holds : Bool)
  | nothing
  deriving DecidableEq, Repr

/-- A call together with its answer. -/
structure Event (T : Type) where
  call : Call T
  answer : Answer
  deriving DecidableEq, Repr

/-- One call. -/
def Remap.apply (r : Remap T) : Call T → Option (Remap T × Answer)
  | .add key current desiredIndex =>
      match r.add key current desiredIndex with
      | none => none
      | some (next, p) => some (next, .object (some p))
  | .unset key current =>
      match r.unset key current with
      | none => none
      | some (next, p) => some (next, .object p)
  | .at' key =>
      match r.at' key with
      | none => none
      | some p => some (r, .object p)
  | .contains key => some (r, .found (r.contains key))
  | .clear => some (r.clear, .nothing)

/-- One call with the answer that it gets. -/
def step (r : Remap T) (e : Event T) : Option (Remap T) :=
  match r.apply e.call with
  | none => none
  | some (next, answer) => if answer = e.answer then some next else none

theorem step_eq_some {r next : Remap T} {e : Event T} (h : step r e = some next) :
    r.apply e.call = some (next, e.answer) := by
  unfold step at h
  cases happly : r.apply e.call with
  | none =>
      rw [happly] at h
      cases h
  | some result =>
      rw [happly] at h
      simp only at h
      split_ifs at h with hanswer
      cases h
      rw [← hanswer]

/-! ## What a run did -/

/-- The events behind the last `clear`. -/
def sinceClear (events : List (Event T)) : List (Event T) :=
  events.foldl (fun kept e => if e.call = .clear then [] else kept ++ [e]) []

/-- The object that the event added. -/
def Event.added (e : Event T) : Option Pointer :=
  match e.call, e.answer with
  | .add _ _ _, .object p => p
  | _, _ => none

/-- The objects added, in order. -/
def adds (events : List (Event T)) : List Pointer := events.filterMap Event.added

/-- The event adds or unsets the key. -/
def Event.Changes (e : Event T) (key : T) : Prop :=
  match e.call with
  | .add k _ _ => k = key
  | .unset k _ => k = key
  | _ => False

/-- The last change of the key added it, and `p` is the object of that call. -/
def LastAdd (events : List (Event T)) (key : T) (p : Pointer) : Prop :=
  ∃ front back current desiredIndex,
    events = front ++ ⟨.add key current desiredIndex, .object (some p)⟩ :: back ∧
      ∀ e ∈ back, ¬ e.Changes key

/-- One more than the largest index; 0 if there is none. -/
def onePast (indices : List Nat) : Nat := indices.foldr (fun i n => max (i + 1) n) 0

/-- What the containers say about the calls since the last `clear`. -/
structure Books (r : Remap T) (kept : List (Event T)) : Prop where
  /-- `iterate()` is strictly increasing by index. -/
  increasing : r.storage.Pairwise fun p q => r.indexOf p < r.indexOf q
  /-- It holds the objects added, the destroyed ones included, each once. -/
  stored : r.storage.Perm (adds kept)
  once : (adds kept).Nodup
  /-- An object keeps the index that it was given: the one that was asked for, or else the number
  of objects added before it. -/
  given : ∀ front back key current desiredIndex p,
    kept = front ++ ⟨.add key current desiredIndex, .object (some p)⟩ :: back →
      r.indexOf p =
        if desiredIndex ≠ invalidIndex then desiredIndex.toNat else (adds front).length
  /-- No index was given out twice. -/
  distinct : ((adds kept).map r.indexOf).Nodup
  /-- The counter has 32 bits. -/
  size : r.size = onePast ((adds kept).map r.indexOf) % 2 ^ 32
  contains : ∀ key, r.contains key = true ↔ key ≠ 0 ∧ ∃ p, LastAdd kept key p
  at' : ∀ key p, LastAdd kept key p → r.at' key = some (some p)

/-- The calls that the class allows: a map is used in one mode, an index is asked for once, and
only handles that are there are unset. -/
def Proper (kept : List (Event T)) : Call T → Prop
  | .add key _ desiredIndex =>
      key ≠ 0 ∧
        (∀ e ∈ kept, ∀ key' current' desiredIndex', e.call = .add key' current' desiredIndex' →
          requestedMode desiredIndex' = requestedMode desiredIndex ∧
            (desiredIndex ≠ invalidIndex → desiredIndex' ≠ desiredIndex)) ∧
        (desiredIndex = invalidIndex → (adds kept).length < 2 ^ 32)
  | .unset key _ => key = 0 ∨ ∃ p, LastAdd kept key p
  | .at' key => key = 0 ∨ ∃ e ∈ kept, ∃ current desiredIndex, e.call = .add key current desiredIndex
  | .contains _ => True
  | .clear => True

/-! ## One call -/

section Insertion

variable {indexOf : Pointer → Nat} {storage : List Pointer} {p : Pointer}

theorem insertSorted_cons (q : Pointer) (rest : List Pointer) :
    Remap.insertSorted indexOf (q :: rest) p =
      if indexOf q < indexOf p then (Remap.insertSorted indexOf rest p).map (q :: ·)
      else if indexOf q = indexOf p then none
      else some (p :: q :: rest) := by
  unfold Remap.insertSorted
  rw [List.takeWhile_cons, List.dropWhile_cons]
  by_cases hlt : indexOf q < indexOf p
  · simp only [hlt, decide_true, if_true, List.cons_append]
    cases hdrop : rest.dropWhile fun q => decide (indexOf q < indexOf p) with
    | nil => rfl
    | cons first back =>
        simp only
        split_ifs
        · rfl
        · rfl
  · simp only [hlt, decide_false, if_false, Bool.false_eq_true, List.nil_append]

/-- The insertion fails exactly if the index is there, and else keeps the order. -/
theorem insertSorted_none
    (hsorted : storage.Pairwise fun q q' => indexOf q < indexOf q')
    (hthere : ∃ q ∈ storage, indexOf q = indexOf p) :
    Remap.insertSorted indexOf storage p = none := by
  induction storage with
  | nil => exact absurd hthere (by simp)
  | cons first rest ih =>
      obtain ⟨hfirst, hrest⟩ := List.pairwise_cons.mp hsorted
      obtain ⟨q, hq, hindex⟩ := hthere
      rw [insertSorted_cons]
      rcases List.mem_cons.mp hq with rfl | hq
      · rw [if_neg (by omega), if_pos hindex]
      · have hlt := hfirst q hq
        rw [if_pos (by omega), ih hrest ⟨q, hq, hindex⟩, Option.map_none]

theorem insertSorted_some
    (hsorted : storage.Pairwise fun q q' => indexOf q < indexOf q')
    (hfree : ∀ q ∈ storage, indexOf q ≠ indexOf p) :
    ∃ storage', Remap.insertSorted indexOf storage p = some storage' ∧
      storage'.Perm (p :: storage) ∧
      storage'.Pairwise fun q q' => indexOf q < indexOf q' := by
  induction storage with
  | nil => exact ⟨[p], rfl, List.Perm.refl _, List.pairwise_singleton _ _⟩
  | cons first rest ih =>
      obtain ⟨hfirst, hrest⟩ := List.pairwise_cons.mp hsorted
      obtain ⟨hfree', hfreeRest⟩ := List.forall_mem_cons.mp hfree
      rw [insertSorted_cons]
      by_cases hlt : indexOf first < indexOf p
      · obtain ⟨storage', hinsert, hperm, hsorted'⟩ := ih hrest hfreeRest
        refine ⟨first :: storage', ?_, ?_, List.pairwise_cons.mpr ⟨fun q hq => ?_, hsorted'⟩⟩
        · rw [if_pos hlt, hinsert, Option.map_some]
        · exact (hperm.cons first).trans (List.Perm.swap p first rest)
        · rcases List.mem_cons.mp (hperm.mem_iff.mp hq) with rfl | hq
          · exact hlt
          · exact hfirst q hq
      · refine ⟨p :: first :: rest, ?_, List.Perm.refl _, ?_⟩
        · rw [if_neg hlt, if_neg hfree']
        · refine List.pairwise_cons.mpr ⟨fun q hq => ?_, hsorted⟩
          rcases List.mem_cons.mp hq with rfl | hq
          · omega
          · have := hfirst q hq
            omega

end Insertion

/-- The index that a call of `add` gives out. -/
def Remap.givenIndex (r : Remap T) (desiredIndex : BitVec 32) : Nat :=
  if desiredIndex ≠ invalidIndex then desiredIndex.toNat else r.size

/-- What a call of `add` does. -/
structure Remap.AddsObject (r : Remap T) (key : T) (current : ChangeSource)
    (desiredIndex : BitVec 32) (next : Remap T) : Prop where
  key_ne : key ≠ 0
  mode : r.mode = .unknown ∨ r.mode = requestedMode desiredIndex
  free : ∀ q ∈ r.storage, r.indexOf q ≠ r.givenIndex desiredIndex
  lookup : next.lookup = Function.update r.lookup key (some (some r.next))
  stored : next.storage.Perm (r.next :: r.storage)
  increasing : next.storage.Pairwise fun q q' => next.indexOf q < next.indexOf q'
  size : next.size = if desiredIndex ≠ invalidIndex then
    max r.size (desiredIndex + 1).toNat else (r.size + 1) % 2 ^ 32
  mode_next : next.mode = requestedMode desiredIndex
  heap : next.heap = Function.update r.heap r.next
    { index := r.givenIndex desiredIndex, creation := current, lastModified := current }
  next_eq : next.next = r.next + 1

omit [DecidableEq T] [Zero T] in
/-- The indices of the objects in `storage` stay as they are when an object is added. -/
theorem indexOf_update {r : Remap T} {tracked : Tracked} {q : Pointer} (hq : q ≠ r.next) :
    (Function.update r.heap r.next tracked q).index = r.indexOf q := by
  rw [Function.update_of_ne hq]
  rfl

/-- **Adding.**  A call of `add` is answered with the next object exactly if the key is not
null, the mode is right and the index is free. -/
theorem add_spec {r : Remap T} (key : T) (current : ChangeSource) (desiredIndex : BitVec 32)
    (hfresh : ∀ q ∈ r.storage, q < r.next)
    (hsorted : r.storage.Pairwise fun q q' => r.indexOf q < r.indexOf q') :
    (∃ next, r.add key current desiredIndex = some (next, r.next) ∧
        r.AddsObject key current desiredIndex next) ∨
      (r.add key current desiredIndex = none ∧
        ¬ (key ≠ 0 ∧ (r.mode = .unknown ∨ r.mode = requestedMode desiredIndex) ∧
          ∀ q ∈ r.storage, r.indexOf q ≠ r.givenIndex desiredIndex)) := by
  unfold Remap.add
  by_cases hkey : key = 0
  · rw [if_pos hkey]
    exact Or.inr ⟨rfl, fun h => h.1 hkey⟩
  · rw [if_neg hkey]
    simp only
    by_cases hmode : r.mode = .unknown ∨ r.mode = requestedMode desiredIndex
    · have hrequested : (if r.mode = .unknown then requestedMode desiredIndex else r.mode) =
          requestedMode desiredIndex := by
        split_ifs with hunknown
        · rfl
        · exact hmode.resolve_left hunknown
      rw [hrequested, if_neg (not_not.mpr rfl)]
      -- the list is sorted by the indices of the new heap as well
      have hkeep : ∀ q ∈ r.storage, ∀ tracked : Tracked,
          (Function.update r.heap r.next tracked q).index = r.indexOf q :=
        fun q hq tracked => indexOf_update (hfresh q hq).ne
      have hsorted' : ∀ tracked : Tracked, r.storage.Pairwise fun q q' =>
          (Function.update r.heap r.next tracked q).index <
            (Function.update r.heap r.next tracked q').index := fun tracked =>
        hsorted.imp_of_mem fun hq hq' hlt => by
          rw [hkeep _ hq, hkeep _ hq']
          exact hlt
      by_cases hfree : ∀ q ∈ r.storage, r.indexOf q ≠ r.givenIndex desiredIndex
      · obtain ⟨storage', hinsert, hperm, hincreasing⟩ :=
          insertSorted_some (p := r.next)
            (hsorted' ⟨r.givenIndex desiredIndex, current, current, {}⟩)
            fun q hq => by
              rw [hkeep q hq, Function.update_self]
              exact hfree q hq
        unfold Remap.givenIndex at hinsert
        rw [hinsert]
        refine Or.inl ⟨_, rfl, hkey, hmode, hfree, rfl, hperm, hincreasing, ?_, rfl, rfl, rfl⟩
        split_ifs
        · rfl
        · rfl
      · simp only [ne_eq, not_forall, not_not] at hfree
        obtain ⟨q, hq, hindex⟩ := hfree
        have hinsert := insertSorted_none (p := r.next)
          (hsorted' ⟨r.givenIndex desiredIndex, current, current, {}⟩)
          ⟨q, hq, by rw [hkeep q hq, Function.update_self]; exact hindex⟩
        unfold Remap.givenIndex at hinsert
        rw [hinsert]
        exact Or.inr ⟨rfl, fun h => h.2.2 q hq hindex⟩
    · have hother : (if r.mode = .unknown then requestedMode desiredIndex else r.mode) ≠
          requestedMode desiredIndex := by
        rw [not_or] at hmode
        rw [if_neg hmode.1]
        exact hmode.2
      rw [if_pos hother]
      exact Or.inr ⟨rfl, fun h => hmode h.2.1⟩

/-! ## The trace behind one more event -/

section Snoc

variable {events kept : List (Event T)} {e : Event T} {key : T} {p : Pointer}

omit [Zero T] in
theorem sinceClear_snoc : sinceClear (events ++ [e]) =
    if e.call = .clear then [] else sinceClear events ++ [e] := by
  unfold sinceClear
  rw [List.foldl_append, List.foldl_cons, List.foldl_nil]

omit [DecidableEq T] [Zero T] in
theorem adds_snoc : adds (kept ++ [e]) = adds kept ++ e.added.toList := by
  unfold adds
  rw [List.filterMap_append]
  cases h : e.added with
  | none => simp [h]
  | some p => simp [h]

omit [DecidableEq T] [Zero T] in
theorem lastAdd_snoc : LastAdd (kept ++ [e]) key p ↔
    (∃ current desiredIndex, e = ⟨.add key current desiredIndex, .object (some p)⟩) ∨
      (LastAdd kept key p ∧ ¬ e.Changes key) := by
  constructor
  · rintro ⟨front, back, current, desiredIndex, hkept, hback⟩
    rcases List.eq_nil_or_concat' back with rfl | ⟨init, last, rfl⟩
    · obtain ⟨-, he⟩ := List.append_inj' hkept rfl
      exact Or.inl ⟨current, desiredIndex, List.singleton_inj.mp he⟩
    · rw [← List.cons_append, ← List.append_assoc] at hkept
      obtain ⟨hfront, he⟩ := List.append_inj' hkept rfl
      refine Or.inr ⟨⟨front, init, current, desiredIndex, hfront, fun e' he' => ?_⟩, ?_⟩
      · exact hback e' (List.mem_append_left _ he')
      · rw [List.singleton_inj.mp he]
        exact hback last (List.mem_append_right _ List.mem_cons_self)
  · rintro (⟨current, desiredIndex, rfl⟩ | ⟨⟨front, back, current, desiredIndex, rfl, hback⟩, he⟩)
    · exact ⟨kept, [], current, desiredIndex, rfl, fun _ h => absurd h List.not_mem_nil⟩
    · refine ⟨front, back ++ [e], current, desiredIndex, by simp, fun e' he' => ?_⟩
      rcases List.mem_append.mp he' with he' | he'
      · exact hback e' he'
      · rw [List.mem_singleton.mp he']
        exact he

theorem onePast_append (indices : List Nat) (index : Nat) :
    onePast (indices ++ [index]) = max (onePast indices) (index + 1) := by
  induction indices with
  | nil => simp [onePast]
  | cons i rest ih =>
      simp only [onePast, List.cons_append, List.foldr_cons] at ih ⊢
      rw [ih, max_assoc]

theorem onePast_range (n : Nat) : onePast (List.range n) = n := by
  induction n with
  | zero => rfl
  | succ n ih =>
      rw [List.range_succ, onePast_append, ih]
      omega

theorem onePast_le {indices : List Nat} {bound : Nat} (h : ∀ i ∈ indices, i < bound) :
    onePast indices ≤ bound := by
  induction indices with
  | nil => exact Nat.zero_le _
  | cons i rest ih =>
      obtain ⟨hi, hrest⟩ := List.forall_mem_cons.mp h
      simp only [onePast, List.foldr_cons] at ih ⊢
      exact max_le hi (ih hrest)

end Snoc

/-! ## Runs -/

/-- The invariant: the books, and what ties the mode and the lookup to the calls. -/
structure Inv (kept : List (Event T)) (r : Remap T) : Prop where
  increasing : r.storage.Pairwise fun p q => r.indexOf p < r.indexOf q
  stored : r.storage.Perm (adds kept)
  fresh : ∀ p ∈ adds kept, p < r.next
  null : r.lookup 0 = some none
  live : ∀ key p, r.lookup key = some (some p) ↔ LastAdd kept key p
  known : ∀ e ∈ kept, ∀ key current desiredIndex, e.call = .add key current desiredIndex →
    r.lookup key ≠ none ∧ r.mode = requestedMode desiredIndex ∧
      (desiredIndex ≠ invalidIndex → ∀ p, e.added = some p → r.indexOf p = desiredIndex.toNat)
  unknown : r.mode = .unknown → adds kept = [] ∧ r.size = 0
  used : r.mode ≠ .unknown → adds kept ≠ []
  automatic : r.mode = .automatic → (adds kept).map r.indexOf = List.range (adds kept).length ∧
    r.size = (adds kept).length % 2 ^ 32
  desired : r.mode = .desired → r.size = onePast ((adds kept).map r.indexOf) ∧
    ∀ p ∈ adds kept, r.indexOf p < 2 ^ 32 - 1

theorem inv_init : Inv [] (Remap.init : Remap T) where
  increasing := List.Pairwise.nil
  stored := List.Perm.refl _
  fresh := fun _ h => absurd h List.not_mem_nil
  null := by simp [Remap.init, emptyLookup]
  live := by
    intro key p
    refine iff_of_false ?_ ?_
    · unfold Remap.init emptyLookup
      by_cases hkey : key = 0
      · simp [hkey]
      · simp [hkey]
    · rintro ⟨front, back, current, desiredIndex, hkept, -⟩
      exact absurd hkept.symm (by simp)
  known := fun _ h => absurd h List.not_mem_nil
  unknown := fun _ => ⟨rfl, rfl⟩
  used := fun h => absurd rfl h
  automatic := fun h => by cases h
  desired := fun h => by cases h

omit [DecidableEq T] in
/-- An object that was added has the index of its call. -/
theorem Inv.index_given {kept front back : List (Event T)} {r : Remap T} (hinv : Inv kept r)
    {key : T} {current : ChangeSource} {desiredIndex : BitVec 32} {p : Pointer}
    (hkept : kept = front ++ ⟨.add key current desiredIndex, .object (some p)⟩ :: back) :
    r.indexOf p =
      if desiredIndex ≠ invalidIndex then desiredIndex.toNat else (adds front).length := by
  obtain ⟨-, hmode, hindex⟩ := hinv.known ⟨.add key current desiredIndex, .object (some p)⟩
    (by rw [hkept]; exact List.mem_append_right _ List.mem_cons_self) key current desiredIndex rfl
  by_cases hvalid : desiredIndex ≠ invalidIndex
  · rw [if_pos hvalid]
    exact hindex hvalid p rfl
  · rw [if_neg hvalid]
    rw [requestedMode, if_neg hvalid] at hmode
    obtain ⟨hrange, -⟩ := hinv.automatic hmode
    -- the objects are counted in the order in which they were added
    have hadds : adds kept = adds front ++ p :: adds back := by
      rw [hkept]
      exact List.filterMap_append
    have hplace := congrArg (fun indices => indices[(adds front).length]?) hrange
    rw [hadds] at hplace
    simpa using hplace

/-- The books follow from the invariant. -/
theorem Inv.books {kept : List (Event T)} {r : Remap T} (hinv : Inv kept r) : Books r kept where
  increasing := hinv.increasing
  stored := hinv.stored
  once := by
    refine hinv.stored.nodup_iff.mp (hinv.increasing.imp fun {p q} hlt heq => ?_)
    rw [heq] at hlt
    exact lt_irrefl _ hlt
  given := fun _ _ _ _ _ _ hkept => hinv.index_given hkept
  distinct := by
    refine (hinv.stored.map r.indexOf).nodup_iff.mp ?_
    exact List.pairwise_map.mpr (hinv.increasing.imp ne_of_lt)
  size := by
    cases hmode : r.mode with
    | unknown =>
        obtain ⟨hadds, hsize⟩ := hinv.unknown hmode
        rw [hadds, hsize]
        rfl
    | automatic =>
        obtain ⟨hindices, hsize⟩ := hinv.automatic hmode
        rw [hindices, hsize, onePast_range]
    | desired =>
        obtain ⟨hsize, hbound⟩ := hinv.desired hmode
        have hle : onePast ((adds kept).map r.indexOf) ≤ 2 ^ 32 - 1 :=
          onePast_le (List.forall_mem_map.mpr hbound)
        rw [hsize, Nat.mod_eq_of_lt (by omega)]
  contains := by
    intro key
    simp only [← hinv.live, Remap.contains, Bool.and_eq_true, decide_eq_true_eq]
    refine and_congr_right fun _ => ?_
    cases r.lookup key with
    | none => simp
    | some found =>
        cases found with
        | none => simp
        | some p => simp
  at' := fun key p hlast => (hinv.live key p).mpr hlast

omit [DecidableEq T] in
/-- A call that adds nothing keeps the invariant if it changes the lookup as it says. -/
theorem Inv.other {kept : List (Event T)} {r next : Remap T} {e : Event T} (hinv : Inv kept r)
    (hcall : ∀ key current desiredIndex, e.call ≠ .add key current desiredIndex)
    (hstorage : next.storage = r.storage) (hindex : next.indexOf = r.indexOf)
    (hnext : next.next = r.next) (hsize : next.size = r.size) (hmode : next.mode = r.mode)
    (hnull : next.lookup 0 = some none)
    (hsome : ∀ key, r.lookup key ≠ none → next.lookup key ≠ none)
    (hlive : ∀ key p, next.lookup key = some (some p) ↔
      r.lookup key = some (some p) ∧ ¬ e.Changes key) : Inv (kept ++ [e]) next := by
  have hadded : e.added = none := by
    unfold Event.added
    cases hc : e.call with
    | add key current desiredIndex => exact absurd hc (hcall key current desiredIndex)
    | unset key current => rfl
    | at' key => rfl
    | contains key => rfl
    | clear => rfl
  have hadds : adds (kept ++ [e]) = adds kept := by
    rw [adds_snoc, hadded, Option.toList_none, List.append_nil]
  refine ⟨?_, ?_, ?_, hnull, ?_, ?_, ?_, ?_, ?_, ?_⟩
  · rw [hstorage, hindex]
    exact hinv.increasing
  · rw [hstorage, hadds]
    exact hinv.stored
  · rw [hadds, hnext]
    exact hinv.fresh
  · intro key p
    rw [hlive, hinv.live, lastAdd_snoc, or_iff_right]
    rintro ⟨current, desiredIndex, rfl⟩
    exact hcall key current desiredIndex rfl
  · intro e' he' key current desiredIndex hadd
    rcases List.mem_append.mp he' with he' | he'
    · obtain ⟨hthere, hsame, hdesired⟩ := hinv.known e' he' key current desiredIndex hadd
      rw [hmode, hindex]
      exact ⟨hsome key hthere, hsame, hdesired⟩
    · rw [List.mem_singleton.mp he'] at hadd
      exact absurd hadd (hcall key current desiredIndex)
  · rw [hmode, hadds, hsize]
    exact hinv.unknown
  · rw [hmode, hadds]
    exact hinv.used
  · rw [hmode, hadds, hsize, hindex]
    exact hinv.automatic
  · rw [hmode, hadds, hsize, hindex]
    exact hinv.desired

theorem requestedMode_ne_unknown (desiredIndex : BitVec 32) :
    requestedMode desiredIndex ≠ .unknown := by
  unfold requestedMode
  split_ifs <;> exact nofun

theorem eq_invalidIndex_of_automatic {desiredIndex : BitVec 32}
    (h : requestedMode desiredIndex = .automatic) : desiredIndex = invalidIndex := by
  unfold requestedMode at h
  split_ifs at h with hindex
  exact not_not.mp hindex

theorem ne_invalidIndex_of_desired {desiredIndex : BitVec 32}
    (h : requestedMode desiredIndex = .desired) : desiredIndex ≠ invalidIndex := by
  unfold requestedMode at h
  split_ifs at h with hindex
  exact hindex

section Add

variable {kept : List (Event T)} {r next : Remap T} {key : T} {current : ChangeSource}
  {desiredIndex : BitVec 32}

/-- The objects that are there keep their indices. -/
theorem Remap.AddsObject.indexOf_of_lt (hadds : r.AddsObject key current desiredIndex next)
    {p : Pointer} (hp : p < r.next) : next.indexOf p = r.indexOf p := by
  rw [Remap.indexOf, hadds.heap]
  exact indexOf_update hp.ne

theorem Remap.AddsObject.indexOf_next (hadds : r.AddsObject key current desiredIndex next) :
    next.indexOf r.next = r.givenIndex desiredIndex := by
  rw [Remap.indexOf, hadds.heap, Function.update_self]

/-- The indices behind an add are those before it and the one that was given. -/
theorem Inv.indices_add (hinv : Inv kept r)
    (hadds : r.AddsObject key current desiredIndex next) :
    (adds kept ++ [r.next]).map next.indexOf =
      (adds kept).map r.indexOf ++ [r.givenIndex desiredIndex] := by
  rw [List.map_append, List.map_singleton, hadds.indexOf_next]
  exact congrArg (· ++ _)
    (List.map_congr_left fun p hp => hadds.indexOf_of_lt (hinv.fresh p hp))

/-- The key leads to the object that was added, the others lead where they did. -/
theorem Inv.live_add (hinv : Inv kept r) (hadds : r.AddsObject key current desiredIndex next)
    (key' : T) (p : Pointer) : next.lookup key' = some (some p) ↔
      LastAdd (kept ++ [⟨.add key current desiredIndex, .object (some r.next)⟩]) key' p := by
  rw [hadds.lookup, lastAdd_snoc]
  by_cases hkey : key' = key
  · subst hkey
    rw [Function.update_self]
    constructor
    · intro h
      cases h
      exact Or.inl ⟨current, desiredIndex, rfl⟩
    · rintro (⟨current', desiredIndex', he⟩ | ⟨-, hkeep⟩)
      · cases he
        rfl
      · exact absurd rfl hkeep
  · rw [Function.update_of_ne hkey, hinv.live]
    constructor
    · exact fun h => Or.inr ⟨h, fun hchange => hkey hchange.symm⟩
    · rintro (⟨current', desiredIndex', he⟩ | ⟨h, -⟩)
      · cases he
        exact absurd rfl hkey
      · exact h

/-- An earlier call of `add` is answered as it was, since the mode was known by then. -/
theorem Inv.known_add (hinv : Inv kept r) (hadds : r.AddsObject key current desiredIndex next)
    {e : Event T} (he : e ∈ kept) {key' : T} {current' : ChangeSource}
    {desiredIndex' : BitVec 32} (hadd : e.call = .add key' current' desiredIndex') :
    next.lookup key' ≠ none ∧ next.mode = requestedMode desiredIndex' ∧
      (desiredIndex' ≠ invalidIndex →
        ∀ p, e.added = some p → next.indexOf p = desiredIndex'.toNat) := by
  obtain ⟨hthere, hsame, hdesired⟩ := hinv.known e he key' current' desiredIndex' hadd
  refine ⟨?_, ?_, fun hvalid p hp => ?_⟩
  · rw [hadds.lookup]
    by_cases hkey : key' = key
    · rw [hkey, Function.update_self]
      exact Option.some_ne_none _
    · rw [Function.update_of_ne hkey]
      exact hthere
  · rw [hadds.mode_next, ← hsame]
    rcases hadds.mode with hunknown | hmode
    · exact absurd (hsame.symm.trans hunknown) (requestedMode_ne_unknown _)
    · exact hmode.symm
  · have hmem : p ∈ adds kept := List.mem_filterMap.mpr ⟨e, he, hp⟩
    rw [hadds.indexOf_of_lt (hinv.fresh p hmem)]
    exact hdesired hvalid p hp

/-- In the automatic mode the objects are counted. -/
theorem Inv.automatic_add (hinv : Inv kept r)
    (hadds : r.AddsObject key current desiredIndex next) (hinvalid : desiredIndex = invalidIndex)
    (hautomatic : requestedMode desiredIndex = .automatic) :
    (adds kept ++ [r.next]).map next.indexOf = List.range (adds kept ++ [r.next]).length ∧
      next.size = (adds kept ++ [r.next]).length % 2 ^ 32 := by
  have hgiven : r.givenIndex desiredIndex = r.size := by
    rw [Remap.givenIndex, if_neg (not_not.mpr hinvalid)]
  obtain ⟨hrange, hsize⟩ : (adds kept).map r.indexOf = List.range (adds kept).length ∧
      r.size = (adds kept).length % 2 ^ 32 := by
    rcases hadds.mode with hunknown | hmode
    · obtain ⟨hnone, hsize⟩ := hinv.unknown hunknown
      rw [hnone, hsize]
      exact ⟨rfl, rfl⟩
    · exact hinv.automatic (hmode.trans hautomatic)
  -- a counter that came round would give out an index that is there
  have hsmall : (adds kept).length < 2 ^ 32 := by
    by_contra hlarge
    have hmem : r.size ∈ (adds kept).map r.indexOf := by
      rw [hrange, List.mem_range]
      omega
    obtain ⟨q, hq, hindex⟩ := List.mem_map.mp hmem
    exact hadds.free q (hinv.stored.mem_iff.mpr hq) (hindex.trans hgiven.symm)
  rw [hinv.indices_add hadds, hrange, hgiven, hsize, hadds.size, if_neg (not_not.mpr hinvalid),
    hsize, List.length_append, List.length_singleton, List.range_succ, Nat.mod_eq_of_lt hsmall]
  exact ⟨rfl, rfl⟩

/-- In the desired mode the size is one past the largest index. -/
theorem Inv.desired_add (hinv : Inv kept r)
    (hadds : r.AddsObject key current desiredIndex next) (hvalid : desiredIndex ≠ invalidIndex)
    (hdesired : requestedMode desiredIndex = .desired) :
    next.size = onePast ((adds kept ++ [r.next]).map next.indexOf) ∧
      ∀ p ∈ adds kept ++ [r.next], next.indexOf p < 2 ^ 32 - 1 := by
  have hgiven : r.givenIndex desiredIndex = desiredIndex.toNat := by
    rw [Remap.givenIndex, if_pos hvalid]
  obtain ⟨hsize, hbound⟩ : r.size = onePast ((adds kept).map r.indexOf) ∧
      ∀ p ∈ adds kept, r.indexOf p < 2 ^ 32 - 1 := by
    rcases hadds.mode with hunknown | hmode
    · obtain ⟨hnone, hsize⟩ := hinv.unknown hunknown
      rw [hnone, hsize]
      exact ⟨rfl, fun _ h => absurd h List.not_mem_nil⟩
    · exact hinv.desired (hmode.trans hdesired)
  have hlt : desiredIndex.toNat < 2 ^ 32 - 1 := by
    have hne : desiredIndex.toNat ≠ 2 ^ 32 - 1 := fun h =>
      hvalid (BitVec.eq_of_toNat_eq (h.trans BitVec.toNat_allOnes.symm))
    have := desiredIndex.isLt
    omega
  have hsucc : (desiredIndex + 1).toNat = desiredIndex.toNat + 1 := by
    rw [BitVec.toNat_add]
    exact Nat.mod_eq_of_lt (show desiredIndex.toNat + 1 < 2 ^ 32 by omega)
  rw [hinv.indices_add hadds, onePast_append, hadds.size, if_pos hvalid, hgiven, hsucc, hsize]
  refine ⟨rfl, fun p hp => ?_⟩
  rcases List.mem_append.mp hp with hp | hp
  · rw [hadds.indexOf_of_lt (hinv.fresh p hp)]
    exact hbound p hp
  · rw [List.mem_singleton.mp hp, hadds.indexOf_next, hgiven]
    exact hlt

/-- Adding an object keeps the invariant. -/
theorem Inv.add (hinv : Inv kept r) (hadds : r.AddsObject key current desiredIndex next) :
    Inv (kept ++ [⟨.add key current desiredIndex, .object (some r.next)⟩]) next := by
  have hlist : adds (kept ++ [⟨.add key current desiredIndex, .object (some r.next)⟩]) =
      adds kept ++ [r.next] := adds_snoc
  refine ⟨hadds.increasing, ?_, ?_, ?_, hinv.live_add hadds, ?_, ?_, ?_, ?_, ?_⟩
  · rw [hlist]
    exact hadds.stored.trans
      ((hinv.stored.cons r.next).trans (List.perm_append_singleton _ _).symm)
  · rw [hlist, hadds.next_eq]
    intro p hp
    rcases List.mem_append.mp hp with hp | hp
    · exact (hinv.fresh p hp).trans (Nat.lt_succ_self _)
    · rw [List.mem_singleton.mp hp]
      exact Nat.lt_succ_self _
  · rw [hadds.lookup, Function.update_of_ne (Ne.symm hadds.key_ne)]
    exact hinv.null
  · intro e he key' current' desiredIndex' hadd
    rcases List.mem_append.mp he with he | he
    · exact hinv.known_add hadds he hadd
    · rw [List.mem_singleton.mp he] at hadd ⊢
      cases hadd
      refine ⟨?_, hadds.mode_next, fun hvalid p hp => ?_⟩
      · rw [hadds.lookup, Function.update_self]
        exact Option.some_ne_none _
      · cases hp
        rw [hadds.indexOf_next, Remap.givenIndex, if_pos hvalid]
  · intro hunknown
    exact absurd (hadds.mode_next.symm.trans hunknown) (requestedMode_ne_unknown _)
  · rw [hlist]
    exact fun _ => List.append_ne_nil_of_right_ne_nil _ (List.cons_ne_nil _ _)
  · intro hautomatic
    rw [hadds.mode_next] at hautomatic
    rw [hlist]
    exact hinv.automatic_add hadds (eq_invalidIndex_of_automatic hautomatic) hautomatic
  · intro hdesired
    rw [hadds.mode_next] at hdesired
    rw [hlist]
    exact hinv.desired_add hadds (ne_invalidIndex_of_desired hdesired) hdesired

end Add

/-- Clearing starts afresh. -/
theorem inv_clear (r : Remap T) : Inv [] r.clear where
  increasing := List.Pairwise.nil
  stored := List.Perm.refl _
  fresh := fun _ h => absurd h List.not_mem_nil
  null := inv_init.null
  live := inv_init.live
  known := fun _ h => absurd h List.not_mem_nil
  unknown := fun _ => ⟨rfl, rfl⟩
  used := fun h => absurd rfl h
  automatic := fun h => by cases h
  desired := fun h => by cases h

/-- What an event of the run keeps. -/
theorem step_inv {events : List (Event T)} {r next : Remap T} {e : Event T}
    (hinv : Inv (sinceClear events) r) (hstep : step r e = some next) :
    Inv (sinceClear (events ++ [e])) next := by
  have happly := step_eq_some hstep
  obtain ⟨call, answer⟩ := e
  rw [sinceClear_snoc]
  cases call with
  | add key current desiredIndex =>
      rw [if_neg (by simp)]
      rcases add_spec key current desiredIndex
        (fun q hq => hinv.fresh q (hinv.stored.mem_iff.mp hq)) hinv.increasing with
        ⟨next', hadd, hadds⟩ | ⟨hnone, -⟩
      · simp only [Remap.apply, hadd, Option.some_inj, Prod.mk.injEq] at happly
        obtain ⟨rfl, rfl⟩ := happly
        exact hinv.add hadds
      · simp [Remap.apply, hnone] at happly
  | unset key current =>
      rw [if_neg (by simp)]
      by_cases hkey : key = 0
      · subst hkey
        simp only [Remap.apply, Remap.unset, if_pos, Option.some_inj, Prod.mk.injEq] at happly
        obtain ⟨rfl, rfl⟩ := happly
        refine hinv.other (by simp) rfl rfl rfl rfl rfl hinv.null (fun _ h => h) fun key p => ?_
        rw [iff_self_and]
        -- the null handle is never live
        rintro hlive rfl
        rw [hinv.null] at hlive
        cases hlive
      · cases hlookup : r.lookup key with
        | none => simp [Remap.apply, Remap.unset, hkey, hlookup] at happly
        | some found =>
            cases found with
            | none => simp [Remap.apply, Remap.unset, hkey, hlookup] at happly
            | some p =>
                simp only [Remap.apply, Remap.unset, if_neg hkey, hlookup, Option.some_inj,
                  Prod.mk.injEq] at happly
                obtain ⟨rfl, rfl⟩ := happly
                refine hinv.other (by simp) rfl ?_ rfl rfl rfl ?_ (fun key' hthere => ?_)
                  fun key' p' => ?_
                · funext q
                  unfold Remap.indexOf
                  by_cases hq : q = p
                  · simp [hq]
                  · simp [hq]
                · simp only [Function.update_of_ne (Ne.symm hkey)]
                  exact hinv.null
                · by_cases hsame : key' = key
                  · simp [hsame]
                  · simpa [hsame] using hthere
                · by_cases hsame : key' = key
                  · simp [hsame, Event.Changes]
                  · simp [hsame, Event.Changes, Ne.symm hsame]
  | at' key =>
      rw [if_neg (by simp)]
      cases hlookup : r.lookup key with
      | none => simp [Remap.apply, Remap.at', hlookup] at happly
      | some p =>
          simp only [Remap.apply, Remap.at', hlookup, Option.some_inj, Prod.mk.injEq] at happly
          obtain ⟨rfl, rfl⟩ := happly
          refine hinv.other (by simp) rfl rfl rfl rfl rfl hinv.null (fun _ h => h) fun key p => ?_
          simp [Event.Changes]
  | contains key =>
      rw [if_neg (by simp)]
      simp only [Remap.apply, Option.some_inj, Prod.mk.injEq] at happly
      obtain ⟨rfl, rfl⟩ := happly
      refine hinv.other (by simp) rfl rfl rfl rfl rfl hinv.null (fun _ h => h) fun key p => ?_
      simp [Event.Changes]
  | clear =>
      rw [if_pos rfl]
      simp only [Remap.apply, Option.some_inj, Prod.mk.injEq] at happly
      obtain ⟨rfl, rfl⟩ := happly
      exact inv_clear r

theorem run_inv {events : List (Event T)} {final : Remap T}
    (hexec : exec step Remap.init events = some final) : Inv (sinceClear events) final := by
  have hstep : ∀ (trace : List (Event T)) (r : Remap T) (e : Event T) (next : Remap T),
      Inv (sinceClear trace) r → True → step r e = some next →
        Inv (sinceClear (trace ++ [e])) next :=
    fun _ _ _ _ hinv _ hnext => step_inv hinv hnext
  have hinit : Inv (sinceClear []) (Remap.init : Remap T) := inv_init
  exact exec_trace_invariant hstep hinit (along_true step _ events) hexec

omit [DecidableEq T] [Zero T] in
theorem call_of_added {e : Event T} {p : Pointer} (h : e.added = some p) :
    ∃ key current desiredIndex, e.call = .add key current desiredIndex := by
  unfold Event.added at h
  split at h
  · case _ hcall _ => exact ⟨_, _, _, hcall⟩
  · cases h

/-- **Progress.**  A proper call is answered. -/
theorem exists_answer {kept : List (Event T)} {r : Remap T} {call : Call T} (hinv : Inv kept r)
    (hproper : Proper kept call) : ∃ answer next, step r ⟨call, answer⟩ = some next := by
  suffices h : ∃ next answer, r.apply call = some (next, answer) by
    obtain ⟨next, answer, happly⟩ := h
    refine ⟨answer, next, ?_⟩
    unfold step
    simp only [happly, if_true]
  cases call with
  | add key current desiredIndex =>
      obtain ⟨hkey, hothers, hcount⟩ := hproper
      rcases add_spec key current desiredIndex
        (fun q hq => hinv.fresh q (hinv.stored.mem_iff.mp hq)) hinv.increasing with
        ⟨next, hadd, -⟩ | ⟨-, hfails⟩
      · exact ⟨next, .object (some r.next), by simp [Remap.apply, hadd]⟩
      · -- every object that is there was added in the same mode
        have hbefore : ∀ q ∈ adds kept, r.mode = requestedMode desiredIndex ∧
            (desiredIndex ≠ invalidIndex → r.indexOf q ≠ desiredIndex.toNat) := by
          intro q hq
          obtain ⟨e, he, hadded⟩ := List.mem_filterMap.mp hq
          obtain ⟨key', current', desiredIndex', hadd⟩ := call_of_added hadded
          obtain ⟨-, hmode, hindex⟩ := hinv.known e he key' current' desiredIndex' hadd
          obtain ⟨hsame, hother⟩ := hothers e he key' current' desiredIndex' hadd
          refine ⟨hmode.trans hsame, fun hvalid => ?_⟩
          have hvalid' : desiredIndex' ≠ invalidIndex := by
            unfold requestedMode at hsame
            rw [if_pos hvalid] at hsame
            split_ifs at hsame with h
            exact h
          rw [hindex hvalid' q hadded]
          exact fun heq => hother hvalid (BitVec.eq_of_toNat_eq heq)
        refine absurd ⟨hkey, ?_, fun q hq => ?_⟩ hfails
        · by_cases hunknown : r.mode = .unknown
          · exact Or.inl hunknown
          · obtain ⟨q, hq⟩ := List.exists_mem_of_ne_nil _ (hinv.used hunknown)
            exact Or.inr (hbefore q hq).1
        · have hmem := hinv.stored.mem_iff.mp hq
          obtain ⟨hmode, hindex⟩ := hbefore q hmem
          unfold Remap.givenIndex
          split_ifs with hvalid
          · exact hindex hvalid
          · -- the counter is behind all indices that it gave out
            have hautomatic : r.mode = .automatic := by
              rw [hmode, requestedMode, if_neg hvalid]
            obtain ⟨hrange, hsize⟩ := hinv.automatic hautomatic
            have hlt : r.indexOf q ∈ List.range (adds kept).length :=
              hrange ▸ List.mem_map_of_mem hmem
            rw [List.mem_range] at hlt
            rw [hsize, Nat.mod_eq_of_lt (hcount (not_not.mp hvalid))]
            exact hlt.ne
  | unset key current =>
      rcases hproper with rfl | ⟨p, hlast⟩
      · exact ⟨r, .object none, by simp [Remap.apply, Remap.unset]⟩
      · have hlive := (hinv.live key p).mpr hlast
        have hkey : key ≠ 0 := by
          rintro rfl
          rw [hinv.null] at hlive
          cases hlive
        refine ⟨{ r with
          heap := Function.update r.heap p { r.heap p with destroyed := current }
          lookup := Function.update r.lookup key (some none) }, .object (some p), ?_⟩
        simp only [Remap.apply, Remap.unset, if_neg hkey, hlive]
  | at' key =>
      have hthere : r.lookup key ≠ none := by
        rcases hproper with rfl | ⟨e, he, current, desiredIndex, hadd⟩
        · rw [hinv.null]
          exact Option.some_ne_none _
        · exact (hinv.known e he key current desiredIndex hadd).1
      obtain ⟨p, hp⟩ := Option.ne_none_iff_exists'.mp hthere
      exact ⟨r, .object p, by simp [Remap.apply, Remap.at', hp]⟩
  | contains key => exact ⟨r, _, rfl⟩
  | clear => exact ⟨r.clear, _, rfl⟩

theorem answer_of_add {r next : Remap T} {key : T} {current : ChangeSource}
    {desiredIndex : BitVec 32} {answer : Answer}
    (h : r.apply (.add key current desiredIndex) = some (next, answer)) :
    ∃ p, answer = .object (some p) := by
  unfold Remap.apply at h
  cases hadd : r.add key current desiredIndex with
  | none => simp [hadd] at h
  | some result =>
      simp only [hadd, Option.some_inj, Prod.mk.injEq] at h
      exact ⟨result.2, h.2.symm⟩

/-- **Bookkeeping.**  In every run the three containers say the same about the calls since the
last `clear`, and behind it every proper call is answered. -/
theorem bookkeeping (events : List (Event T)) (final : Remap T)
    (hexec : exec step Remap.init events = some final) :
    Books final (sinceClear events) ∧
      ∀ call, Proper (sinceClear events) call →
        ∃ answer next, step final ⟨call, answer⟩ = some next :=
  ⟨(run_inv hexec).books, fun _ hproper => exists_answer (run_inv hexec) hproper⟩

end Maps

/-- Two desired indices out of order, and the first key again. -/
def outOfOrder : List (Event Nat) :=
  [⟨.add 7 {} 5, .object (some 0)⟩, ⟨.add 8 {} 2, .object (some 1)⟩,
    ⟨.unset 7 {}, .object (some 0)⟩, ⟨.add 7 {} 3, .object (some 2)⟩]

/-- The run is one of the map, so its books are kept. -/
theorem bookkeeping_outOfOrder : ∃ final, exec step Remap.init outOfOrder = some final ∧
    final.storage = [1, 2, 0] ∧ final.size = 6 ∧ Books final (sinceClear outOfOrder) :=
  ⟨_, rfl, rfl, rfl, (bookkeeping outOfOrder _ rfl).1⟩

/-- A run of automatic calls with ever new keys, up to the range of the counter. -/
theorem exists_automatic_run (n : Nat) (hn : n ≤ 2 ^ 32) :
    ∃ (events : List (Event Nat)) (final : Remap Nat),
      exec step Remap.init events = some final ∧ sinceClear events = events ∧
        (adds events).length = n ∧
        ∀ e ∈ events, ∃ key ≤ n, e.call = .add key {} invalidIndex := by
  induction n with
  | zero => exact ⟨[], Remap.init, rfl, rfl, rfl, fun _ h => absurd h List.not_mem_nil⟩
  | succ n ih =>
      obtain ⟨events, final, hexec, hkept, hlength, hcalls⟩ := ih (by omega)
      have hproper : Proper (sinceClear events) (.add (n + 1) {} invalidIndex) := by
        rw [hkept]
        refine ⟨Nat.succ_ne_zero n, fun e he key current desiredIndex hadd => ?_, fun _ => ?_⟩
        · obtain ⟨key', -, hcall⟩ := hcalls e he
          rw [hcall] at hadd
          cases hadd
          exact ⟨rfl, fun hvalid => absurd rfl hvalid⟩
        · omega
      obtain ⟨answer, next, hstep⟩ := exists_answer (run_inv hexec) hproper
      obtain ⟨p, rfl⟩ := answer_of_add (step_eq_some hstep)
      refine ⟨events ++ [⟨.add (n + 1) {} invalidIndex, .object (some p)⟩], next,
        exec_snoc_eq_some_iff.mpr ⟨final, hexec, hstep⟩, ?_, ?_, fun e he => ?_⟩
      · rw [sinceClear_snoc, if_neg (by simp), hkept]
      · rw [adds_snoc, List.length_append, hlength]
        rfl
      · rcases List.mem_append.mp he with he | he
        · obtain ⟨key, hkey, hcall⟩ := hcalls e he
          exact ⟨key, by omega, hcall⟩
        · rw [List.mem_singleton.mp he]
          exact ⟨n + 1, le_rfl, rfl⟩

/-- Behind a `clear` the map gives an index out again and forgets the largest one, and without
one the counter comes round behind its last index. -/
theorem indices_are_forgotten :
    (¬ ∀ (events : List (Event Nat)) (final : Remap Nat),
      exec step Remap.init events = some final → ((adds events).map final.indexOf).Nodup) ∧
    ∃ (events : List (Event Nat)) (final : Remap Nat),
      exec step Remap.init events = some final ∧ sinceClear events = events ∧
        adds events ≠ [] ∧ final.size = 0 := by
  constructor
  · intro h
    have hagain := h [⟨.add 7 {} invalidIndex, .object (some 0)⟩, ⟨.clear, .nothing⟩,
      ⟨.add 7 {} invalidIndex, .object (some 1)⟩] _ rfl
    exact absurd hagain (by decide)
  · obtain ⟨events, final, hexec, hkept, hlength, hcalls⟩ := exists_automatic_run (2 ^ 32) le_rfl
    have hinv := run_inv hexec
    rw [hkept] at hinv
    have hne : adds events ≠ [] := List.ne_nil_of_length_pos (by omega)
    obtain ⟨p, hp⟩ := List.exists_mem_of_ne_nil _ hne
    obtain ⟨e, he, hadded⟩ := List.mem_filterMap.mp hp
    obtain ⟨key, -, hcall⟩ := hcalls e he
    have hmode := (hinv.known e he key {} invalidIndex hcall).2.1
    have hsize := (hinv.automatic hmode).2
    rw [hlength, Nat.mod_self] at hsize
    exact ⟨events, final, hexec, hkept, hne, hsize⟩

end TraceRemap
end Lavatube
