import Lavatube.Suballocator

/-!
# One call of the suballocator

What a call can do to the objects, said once.  The proofs about runs of the suballocator
together with the bytes in its heaps split on the cases below and unfold no call.

* `Binds`, `BindsNone` — the object that is given a place, if any.
* `Outcome`, `step_outcome` — the cases of a step.
* `HeapsKept` — no heap disappears or changes its memory type.
* `Reserves` — the first member of an alias group reserves memory for it.
* `markInitialized` — what reading a lookup changes.
-/

namespace Lavatube
namespace Suballocator

open Transition AliasGroups

/-- The object was given the place `g`, and no other one was. -/
structure Binds (st : State) (key : Key) (g : Grant) (st' : State) : Prop where
  bound : st'.history.bound = Function.update st.history.bound key (some g)
  find : ∀ key', st'.lookups.find key' = if key' = key then
      some ⟨some g.home, g.entry.offset, g.entry.size, g.entry.aliasMember, g.entry.aliasMember⟩
    else st.lookups.find key'

/-- No image, buffer or tensor was given a place; some may have been freed. -/
def BindsNone (st st' : State) : Prop :=
  ∀ type index g, st'.history.bound (.object type index) = some g →
    st.history.bound (.object type index) = some g ∧
      st'.lookups.find (.object type index) = st.lookups.find (.object type index)

/-- The object a call is to place. -/
def Label.key : Label → Option Key
  | .addTrackedobject _ data =>
      some (Suballocation.key { type := data.objectType, index := data.index })
  | .addDatagraphpipelinesession _ data =>
      some (.binding data.index data.bindPoint data.objectIndex)
  | _ => none

/-- What a step does: an object is bound by its call or by its search, a search begins or
goes on, or nothing is placed. -/
inductive Outcome (st : State) (label : Label) (st' : State) : Prop where
  | bound (key : Key) (g : Grant) (hkey : label.key = some key) (hbinds : Binds st key g st')
      (hsearches : st'.searches = st.searches)
  | found (tid : Nat) (search : Search) (g : Grant) (hlabel : label = .advance tid)
      (hsearch : st.searches tid = some search)
      (hbinds : Binds st search.request.sub.key g st')
      (hsearches : st'.searches = Function.update st.searches tid none)
  | searches (tid : Nat) (search : Search) (hnone : BindsNone st st')
      (hsearches : st'.searches = Function.update st.searches tid (some search))
      (horigin : label.key = some search.request.sub.key ∨
        ∃ old, st.searches tid = some old ∧ old.request = search.request)
  | none (hnone : BindsNone st st') (hsearches : st'.searches = st.searches)

/-- Every heap stays, with its memory type, and none comes back to life. -/
def HeapsKept (st st' : State) : Prop :=
  ∀ ref h, st.heap ref = some h → ∃ h', st'.heap ref = some h' ∧
    h'.memoryTypeIndex = h.memoryTypeIndex ∧ (h'.mem = true → h.mem = true)

theorem HeapsKept.refl (st : State) : HeapsKept st st :=
  fun _ h hheap => ⟨h, hheap, rfl, id⟩

theorem HeapsKept.trans {st st' st'' : State} (h : HeapsKept st st') (h' : HeapsKept st' st'') :
    HeapsKept st st'' := by
  intro ref x hx
  obtain ⟨y, hy, htype, hmem⟩ := h ref x hx
  obtain ⟨z, hz, htype', hmem'⟩ := h' ref y hy
  exact ⟨z, hz, htype'.trans htype, hmem ∘ hmem'⟩

section Steps

variable {config : Config} {st st' : State} {ref home : HeapRef} {h h' : Heap} {r : Request}
  {s : Suballocation} {tid total : Nat}

theorem HeapsKept.pushHeap : HeapsKept st (st.pushHeap tid h) := by
  intro ref x hx
  refine ⟨x, ?_, rfl, id⟩
  rw [State.heap_pushHeap, if_neg]
  · exact hx
  · rintro rfl
    rw [State.heap_length] at hx
    cases hx

theorem HeapsKept.setHeap (hold : st.heap ref = some h)
    (htype : h'.memoryTypeIndex = h.memoryTypeIndex) (hmem : h'.mem = true → h.mem = true) :
    HeapsKept st (st.setHeap ref h') := by
  intro ref' x hx
  rw [State.heap_setHeap hold]
  by_cases heq : ref' = ref
  · subst heq
    cases hold.symm.trans hx
    exact ⟨h', if_pos rfl, htype, hmem⟩
  · exact ⟨x, by rw [if_neg heq]; exact hx, rfl, id⟩

/-! ### Placing -/

/-- `bind` gives a place to its object and changes nothing else that is observed. -/
theorem bind_binds (hbind : st.bind home total r s = some st')
    (htype : s.type = .dataGraphPipelineSession → s.aliasMember = false) :
    Binds st s.key ⟨r, home, s⟩ st' ∧ st'.searches = st.searches ∧
      st'.groupHome = st.groupHome ∧ st'.heaps = st.heaps := by
  obtain ⟨lookups, hlookups, rfl⟩ := bind_eq_some hbind
  exact ⟨⟨rfl, Lookups.find_bind hlookups htype⟩, rfl, rfl, rfl⟩

theorem HeapsKept.of_eq (hheaps : st'.heaps = st.heaps) : HeapsKept st st' := by
  intro ref x hx
  refine ⟨x, ?_, rfl, id⟩
  unfold State.heap at hx ⊢
  rw [hheaps]
  exact hx

/-- `allocate` binds the object of the request in a new heap. -/
theorem allocate_binds {dedicated : Bool} (hsingle : r.sub.aliasMember = false)
    (hallocate : allocate config st r dedicated = some st') :
    ∃ g, Binds st r.sub.key g st' ∧ st'.searches = st.searches ∧
      st'.groupHome = st.groupHome ∧ HeapsKept st st' := by
  obtain ⟨h, -, hbind⟩ := allocate_eq_some hallocate
  obtain ⟨hbinds, hsearches, hhome, hheaps⟩ := bind_binds hbind fun _ => hsingle
  exact ⟨_, ⟨hbinds.bound, hbinds.find⟩, hsearches, hhome,
    HeapsKept.pushHeap.trans (HeapsKept.of_eq hheaps)⟩

/-- `place` binds the object or begins a search for it. -/
theorem place_outcome {label : Label} {dedicated : Bool} (hsingle : r.sub.aliasMember = false)
    (hkey : label.key = some r.sub.key) (hplace : place config st r dedicated = some st') :
    Outcome st label st' ∧ st'.groupHome = st.groupHome ∧ HeapsKept st st' := by
  obtain ⟨_, hallocate⟩ | rfl := place_cases hplace
  · obtain ⟨g, hbinds, hsearches, hhome, hkept⟩ := allocate_binds hsingle hallocate
    exact ⟨.bound r.sub.key g hkey hbinds hsearches, hhome, hkept⟩
  · refine ⟨.searches r.tid { request := r } ?_ rfl (.inl hkey), rfl, HeapsKept.of_eq rfl⟩
    exact fun _ _ _ hg => ⟨hg, rfl⟩

/-- A member of a group is bound. -/
theorem bindMember_binds {group offset : Nat} {data : TrackedObject}
    (htype : data.objectType ≠ .dataGraphPipelineSession)
    (hbind : bindMember st tid group offset data = some st') :
    ∃ g, Binds st (.object data.objectType data.index) g st' ∧ st'.searches = st.searches ∧
      st'.groupHome = st.groupHome ∧ HeapsKept st st' := by
  obtain ⟨home, h, -, -, hbind⟩ := bindMember_eq_some hbind
  obtain ⟨hbinds, hsearches, hhome, hheaps⟩ := bind_binds hbind fun heq => absurd heq htype
  have hkey : Suballocation.key
      { type := data.objectType, size := data.reqs.size, offset := offset
        index := data.index, alignment := data.reqs.alignment, aliasMember := true } =
      .object data.objectType data.index := if_neg htype
  rw [hkey] at hbinds
  exact ⟨_, hbinds, hsearches, hhome, HeapsKept.of_eq hheaps⟩

/-- The memory of a group is reserved in a new heap. -/
theorem reserveGroup_kept {group : Nat} {g : AliasGroup}
    (hreserve : reserveGroup config st tid group g = some st') :
    st'.history = st.history ∧ st'.lookups = st.lookups ∧ st'.searches = st.searches ∧
      st'.aliases = st.aliases ∧ HeapsKept st st' ∧
      ∃ home, st'.groupHome = Function.update st.groupHome group (some home) := by
  obtain ⟨_, h, -, rfl⟩ := reserveGroup_eq_some hreserve
  exact ⟨rfl, rfl, rfl, rfl, HeapsKept.pushHeap, _, rfl⟩

/-- The first member of a group reserves memory for it. -/
def Reserves (st : State) (label : Label) (group : Nat) (home : HeapRef) (st' : State) : Prop :=
  ∃ tid data offset, label = .addTrackedobject tid data ∧
    st.aliases.getAliasLookup data.objectType data.index = .ok (some ⟨some group, offset⟩) ∧
    st.groupHome group = none ∧ st'.groupHome = Function.update st.groupHome group (some home)

theorem addTrackedobject_outcome {data : TrackedObject}
    (hadd : addTrackedobject config st tid data = some st') :
    Outcome st (.addTrackedobject tid data) st' ∧ HeapsKept st st' ∧
      (st'.groupHome = st.groupHome ∨
        ∃ group home, Reserves st (.addTrackedobject tid data) group home st') := by
  have hmember : ∀ {group offset}, st.aliases.getAliasLookup data.objectType data.index =
      .ok (some ⟨some group, offset⟩) → data.objectType ≠ .dataGraphPipelineSession := by
    intro group offset hget heq
    have hlookup := Aliases.lookup_of_getAliasLookup hget
    simp [Aliases.lookup, heq, Aliases.table] at hlookup
  have hkey : data.objectType ≠ .dataGraphPipelineSession →
      (Label.addTrackedobject tid data).key =
        some (.object data.objectType data.index) := fun htype => congrArg some (if_neg htype)
  cases addTrackedobject_added hadd with
  | later hget hbind =>
      have htype := hmember hget
      obtain ⟨g, hbinds, hsearches, hhome, hkept⟩ := bindMember_binds htype hbind
      exact ⟨.bound _ g (hkey htype) hbinds hsearches, hkept, .inl hhome⟩
  | @first group offset g reserved _ hget _ hfirst hreserve hbind =>
      have htype := hmember hget
      obtain ⟨hhistory, hlookups, hsame, haliases, hkept, home, hreserved⟩ :=
        reserveGroup_kept hreserve
      obtain ⟨g, hbinds, hsearches, hhome, hkept'⟩ := bindMember_binds htype hbind
      refine ⟨.bound _ g (hkey htype) ⟨?_, ?_⟩ (hsearches.trans hsame), hkept.trans hkept', .inr
        ⟨group, home, tid, data, offset, rfl, hget, hfirst, hhome.trans hreserved⟩⟩
      · rw [hbinds.bound, hhistory]
      · intro key'
        rw [hbinds.find, hlookups]
  | single _ _ _ hplace =>
      have hplaced : Outcome st (.addTrackedobject tid data) st' ∧
          st'.groupHome = st.groupHome ∧ HeapsKept st st' := place_outcome rfl rfl hplace
      exact ⟨hplaced.1, hplaced.2.2, .inl hplaced.2.1⟩

theorem addDatagraphpipelinesession_outcome {data : SessionBinding}
    (hadd : addDatagraphpipelinesession config st tid data = some st') :
    Outcome st (.addDatagraphpipelinesession tid data) st' ∧ st'.groupHome = st.groupHome ∧
      HeapsKept st st' := by
  obtain ⟨-, _, hplace⟩ := addDatagraphpipelinesession_eq_some hadd
  exact place_outcome rfl rfl hplace

/-! ### Searching -/

/-- Draining does not bring a retired heap back. -/
theorem drain_mem (hmem : (drain h).mem = true) : h.mem = true := by
  unfold drain at hmem
  split at hmem
  · exact hmem
  · simp only at hmem
    split at hmem
    · cases hmem
    · exact hmem

theorem advance_outcome (hinv : Inv config st) (hadvance : advance config st tid = some st') :
    Outcome st (.advance tid) st' ∧ st'.groupHome = st.groupHome ∧ HeapsKept st st' := by
  obtain ⟨search, hsearch, hadvanced⟩ := advance_advanced hadvance
  obtain ⟨-, hvalid⟩ := hinv.searches tid search hsearch
  cases hadvanced with
  | allocated hallocate =>
      obtain ⟨g, hbinds, hsearches, hhome, hkept⟩ := allocate_binds hvalid.single hallocate
      exact ⟨.found tid search g rfl hsearch ⟨hbinds.bound, hbinds.find⟩ hsearches, hhome, hkept⟩
  | @placed h h' placed _ hheap hsuits hplace hbind =>
      simp only [suits, decide_eq_true_eq] at hsuits
      obtain ⟨-, -, -, -, -, -, hroom, -⟩ := hsuits
      obtain ⟨-, hsame, hplaced, -⟩ := placeIn_spec (hinv.heaps _ h hheap).1
        hvalid.aligned hvalid.positive hroom hplace
      have hsingle : placed.aliasMember = false := by
        rw [hplaced]
        exact hvalid.single
      have hkey : placed.key = search.request.sub.key := by
        rw [hplaced]
        rfl
      obtain ⟨hbinds, hsearches, hhome, hheaps⟩ := bind_binds hbind fun _ => hsingle
      rw [hkey] at hbinds
      have hset : HeapsKept st (st.setHeap (tid, search.next) h') :=
        .setHeap hheap (by rw [hsame]) (by rw [hsame]; exact id)
      exact ⟨.found tid search _ rfl hsearch ⟨hbinds.bound, hbinds.find⟩ hsearches, hhome,
        hset.trans (.of_eq hheaps)⟩
  | passed =>
      exact ⟨.searches tid _ (fun _ _ _ hg => ⟨hg, rfl⟩) rfl (.inr ⟨search, hsearch, rfl⟩),
        rfl, .of_eq rfl⟩
  | @drained h hheap =>
      obtain ⟨-, -, -, -, hsame⟩ := drain_spec (hinv.heaps _ h hheap).1
      have hset : HeapsKept st (st.setHeap (tid, search.next) (drain h)) :=
        .setHeap hheap (by rw [hsame]) drain_mem
      exact ⟨.searches tid _ (fun _ _ _ hg => ⟨hg, rfl⟩) rfl (.inr ⟨search, hsearch, rfl⟩),
        rfl, hset.trans (.of_eq rfl)⟩

/-! ### Freeing -/

/-- A freed object is not bound any more; its heap only queues the delete. -/
theorem release_kept (st : State) (key : Key) (l : Lookup) :
    (∀ key' g, (release st key l).history.bound key' = some g →
      st.history.bound key' = some g ∧ (l.home = none ∨ key' ≠ key)) ∧
    (release st key l).lookups = st.lookups ∧ (release st key l).searches = st.searches ∧
      (release st key l).groupHome = st.groupHome ∧ HeapsKept st (release st key l) := by
  have hforgets : ∀ key' g, Function.update st.history.bound key none key' = some g →
      st.history.bound key' = some g ∧ key' ≠ key := by
    intro key' g hg
    by_cases heq : key' = key
    · rw [heq, Function.update_self] at hg
      cases hg
    · rw [Function.update_of_ne heq] at hg
      exact ⟨hg, heq⟩
  unfold release
  split
  · case _ hnone => exact ⟨fun _ _ hg => ⟨hg, .inl hnone⟩, rfl, rfl, rfl, .refl st⟩
  · case _ home hhome =>
    have hbound : ∀ key' g, Function.update st.history.bound key none key' = some g →
        st.history.bound key' = some g ∧ (l.home = none ∨ key' ≠ key) :=
      fun key' g hg => ⟨(hforgets key' g hg).1, .inr (hforgets key' g hg).2⟩
    simp only
    split
    · exact ⟨hbound, rfl, rfl, rfl, .of_eq rfl⟩
    · split
      · exact ⟨hbound, rfl, rfl, rfl, .of_eq rfl⟩
      · case _ h hheap =>
        have hset : HeapsKept st
            (st.setHeap home { h with deletes := h.deletes ++ [l.offset % 2 ^ 32] }) :=
          .setHeap hheap rfl id
        exact ⟨hbound, rfl, rfl, rfl, hset.trans (.of_eq rfl)⟩

theorem freeObject_outcome {label : Label} {type : ObjectType} {index : Nat}
    (hinv : Inv config st) (hfree : freeObject st type index = some st') :
    Outcome st label st' ∧ st'.groupHome = st.groupHome ∧ HeapsKept st st' := by
  obtain rfl | ⟨l, hfind, rfl⟩ := freeObject_cases hfree
  · exact ⟨.none (fun _ _ _ hg => ⟨hg, rfl⟩) rfl, rfl, .refl _⟩
  · obtain ⟨hbound, -, hsearches, hhome, hkept⟩ := release_kept st (.object type index) l
    refine ⟨.none ?_ hsearches, hhome, hkept.trans (.of_eq rfl)⟩
    intro type' index' g hg
    obtain ⟨hg, hother⟩ := hbound _ g hg
    refine ⟨hg, ?_⟩
    change (st.lookups.set type index { l with home := none }).find _ = _
    rw [Lookups.find_set _ hfind, if_neg]
    intro heq
    -- an object that stays bound has a home
    obtain ⟨l', hl', hlocates, -⟩ := hinv.located _ g hg
    rw [heq, hfind] at hl'
    cases hl'
    obtain hnone | hne := hother
    · rw [hnone] at hlocates
      cases hlocates
    · exact hne heq

theorem freeEntries_kept (session : Nat) (entries : List DatagraphLookup) :
    BindsNone st (freeEntries session entries st) ∧
      (freeEntries session entries st).searches = st.searches ∧
      (freeEntries session entries st).groupHome = st.groupHome ∧
      HeapsKept st (freeEntries session entries st) := by
  induction entries generalizing st with
  | nil => exact ⟨fun _ _ _ hg => ⟨hg, rfl⟩, rfl, rfl, .refl st⟩
  | cons e rest ih =>
      obtain ⟨hbound, hlookups, hsearches, hhome, hkept⟩ :=
        release_kept st (.binding session e.bindPoint e.objectIndex) e.loc
      unfold freeEntries
      simp only
      obtain ⟨hnone, hsearches', hhome', hkept'⟩ := ih
      refine ⟨?_, hsearches'.trans hsearches, hhome'.trans hhome,
        (hkept.trans (.of_eq rfl)).trans hkept'⟩
      intro type index g hg
      obtain ⟨hg, hfind⟩ := hnone type index g hg
      refine ⟨(hbound _ g hg).1, hfind.trans ?_⟩
      rw [hlookups]
      cases type <;> rfl

/-! ### All steps -/

/-- **What one step does.** -/
theorem step_outcome {label : Label} (hinv : Inv config st)
    (hstep : step config st label = some st') :
    Outcome st label st' ∧ HeapsKept st st' ∧
      (st'.groupHome = st.groupHome ∨ ∃ group home, Reserves st label group home st') := by
  cases label with
  | addTrackedobject tid data => exact addTrackedobject_outcome hstep
  | addDatagraphpipelinesession tid data =>
      obtain ⟨houtcome, hhome, hkept⟩ := addDatagraphpipelinesession_outcome hstep
      exact ⟨houtcome, hkept, .inl hhome⟩
  | advance tid =>
      obtain ⟨houtcome, hhome, hkept⟩ := advance_outcome hinv hstep
      exact ⟨houtcome, hkept, .inl hhome⟩
  | freeImage index =>
      obtain ⟨houtcome, hhome, hkept⟩ := freeObject_outcome hinv hstep
      exact ⟨houtcome, hkept, .inl hhome⟩
  | freeBuffer index =>
      obtain ⟨houtcome, hhome, hkept⟩ := freeObject_outcome hinv hstep
      exact ⟨houtcome, hkept, .inl hhome⟩
  | freeTensor index =>
      obtain ⟨houtcome, hhome, hkept⟩ := freeObject_outcome hinv hstep
      exact ⟨houtcome, hkept, .inl hhome⟩
  | freeDatagraphpipelinesession index =>
      obtain rfl | ⟨entries, -, rfl⟩ := freeDatagraphpipelinesession_cases hstep
      · exact ⟨.none (fun _ _ _ hg => ⟨hg, rfl⟩) rfl, .refl _, .inl rfl⟩
      · obtain ⟨hnone, hsearches, hhome, hkept⟩ := freeEntries_kept index entries
        exact ⟨.none hnone hsearches, hkept, .inl hhome⟩

/-! ### Reading a step back -/

/-- A live object was live before, or it was bound by its call or by its search, which has
ended. -/
theorem Outcome.live {label : Label} {type : ObjectType} {index : Nat} {g : Grant}
    (houtcome : Outcome st label st') (hg : st'.history.bound (.object type index) = some g) :
    (st.history.bound (.object type index) = some g ∧
      st'.lookups.find (.object type index) = st.lookups.find (.object type index)) ∨
    (st'.lookups.find (.object type index) = some ⟨some g.home, g.entry.offset, g.entry.size,
        g.entry.aliasMember, g.entry.aliasMember⟩ ∧
      (label.key = some (.object type index) ∨ ∃ tid search, st.searches tid = some search ∧
        search.request.sub.key = .object type index ∧ st'.searches tid = Option.none)) := by
  have hbound : ∀ {key g'}, Binds st key g' st' →
      (Key.object type index = key ∧ g' = g) ∨ (Key.object type index ≠ key ∧
        st.history.bound (.object type index) = some g) := by
    intro key g' hbinds
    rw [hbinds.bound] at hg
    by_cases hkey : Key.object type index = key
    · rw [hkey, Function.update_self] at hg
      exact .inl ⟨hkey, Option.some.inj hg⟩
    · rw [Function.update_of_ne hkey] at hg
      exact .inr ⟨hkey, hg⟩
  cases houtcome with
  | bound key g' hkey hbinds hsearches =>
      obtain ⟨rfl, rfl⟩ | ⟨hne, hold⟩ := hbound hbinds
      · exact .inr ⟨(hbinds.find _).trans (if_pos rfl), .inl hkey⟩
      · exact .inl ⟨hold, (hbinds.find _).trans (if_neg hne)⟩
  | found tid search g' hlabel hsearch hbinds hsearches =>
      obtain ⟨hkey, rfl⟩ | ⟨hne, hold⟩ := hbound hbinds
      · refine .inr ⟨(hbinds.find _).trans (if_pos hkey),
          .inr ⟨tid, search, hsearch, hkey.symm, ?_⟩⟩
        rw [hsearches, Function.update_self]
      · exact .inl ⟨hold, (hbinds.find _).trans (if_neg hne)⟩
  | searches tid search hnone hsearches horigin => exact .inl (hnone type index g hg)
  | none hnone hsearches => exact .inl (hnone type index g hg)

/-- A search was going on before, or it has just begun. -/
theorem Outcome.search {label : Label} {search : Search} (houtcome : Outcome st label st')
    (hsearch : st'.searches tid = some search) :
    (∃ old, st.searches tid = some old ∧ old.request = search.request) ∨
    (label.key = some search.request.sub.key ∧ BindsNone st st' ∧
      st'.searches = Function.update st.searches tid (some search)) := by
  cases houtcome with
  | bound key g hkey hbinds hsearches => exact .inl ⟨search, hsearches ▸ hsearch, rfl⟩
  | found tid' search' g hlabel hsearch' hbinds hsearches =>
      rw [hsearches] at hsearch
      by_cases heq : tid = tid'
      · rw [heq, Function.update_self] at hsearch
        cases hsearch
      · rw [Function.update_of_ne heq] at hsearch
        exact .inl ⟨search, hsearch, rfl⟩
  | searches tid' search' hnone hsearches horigin =>
      rw [hsearches] at hsearch
      by_cases heq : tid = tid'
      · subst heq
        rw [Function.update_self] at hsearch
        cases hsearch
        obtain hkey | hold := horigin
        · exact .inr ⟨hkey, hnone, hsearches⟩
        · exact .inl hold
      · rw [Function.update_of_ne heq] at hsearch
        exact .inl ⟨search, hsearch, rfl⟩
  | none hnone hsearches => exact .inl ⟨search, hsearches ▸ hsearch, rfl⟩

/-! ### Reading a lookup -/

/-- A lookup with the `initialized` flag set. -/
def markInitialized (st : State) (type : ObjectType) (index : Nat) (l : Lookup) : State :=
  { st with lookups := st.lookups.set type index { l with initialized := true } }

theorem find_markInitialized {type : ObjectType} {index : Nat} {l : Lookup}
    (hfind : st.lookups.find (.object type index) = some l) (key : Key) :
    (markInitialized st type index l).lookups.find key =
      if key = .object type index then some { l with initialized := true }
      else st.lookups.find key :=
  Lookups.find_set _ hfind key

/-- The placement does not depend on the flag. -/
theorem Inv.markInitialized {type : ObjectType} {index : Nat} {l : Lookup} (hinv : Inv config st)
    (hfind : st.lookups.find (.object type index) = some l) :
    Inv config (markInitialized st type index l) := by
  refine { hinv with located := ?_, known := ?_, placed := ?_, member := ?_, distinct := ?_ }
  · intro key g hg
    obtain ⟨l', hl', hlocates⟩ := hinv.located key g hg
    rw [find_markInitialized hfind]
    by_cases hkey : key = .object type index
    · rw [hkey, hfind] at hl'
      cases hl'
      exact ⟨_, if_pos hkey, hlocates⟩
    · exact ⟨l', by rw [if_neg hkey]; exact hl', hlocates⟩
  · intro key l' ref hl' hhome
    rw [find_markInitialized hfind] at hl'
    split at hl'
    · case _ hkey =>
      cases hl'
      exact hinv.known key l ref (hkey ▸ hfind) hhome
    · exact hinv.known key l' ref hl' hhome
  · intro key g hg hsingle
    obtain ⟨hkey, hfreed, hheap⟩ := hinv.placed key g hg hsingle
    exact ⟨hkey, hfreed, hheap⟩
  · exact fun key g hg halias => hinv.member key g hg halias
  · change (st.lookups.set type index _).Distinct
    unfold Lookups.Distinct
    rw [Lookups.datagraph_set]
    exact hinv.distinct

end Steps

end Suballocator
end Lavatube
