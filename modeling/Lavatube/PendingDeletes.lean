import Lavatube.Suballocator

/-!
# Pending deletes

The threads that free objects put the offsets into the delete list of the heap, and the thread
that owns the heap is to take them before its next allocation attempt.  Only `suballocate` takes
them, heap by heap on its way through the heaps of the thread, and it stops at the heap in which
the object fits; a dedicated allocation and a member of an alias group do not pass there at all.

* `watch` — the calls of all threads, with an eye on the calls of one of them.
* `Drained` — what the comment on `heap::deletes` promises when a call returns.
* `DrainsAll` — the calls that take every delete.
* `Watched.Inv`, `watch_spec` — what a search has taken so far.
* `pending_deletes_drained_iff` — the promise is kept exactly by these calls.
-/

namespace Lavatube
namespace PendingDeletes

open Transition AliasGroups Suballocator

/-- The delete list of a heap of the thread. -/
def deletesAt (st : State) (tid i : Nat) : List Nat :=
  match (st.heaps tid)[i]? with
  | some h => h.deletes
  | none => []

/-- The suballocator, as one thread sees it: the state in which its last call began, and for each
of its heaps what is left in the delete list of the offsets that were there at that time. -/
structure Watched where
  state : State
  start : State
  old : Nat → List Nat

/-- Nothing has been called yet. -/
def watched (st : State) : Watched := ⟨st, st, fun _ => []⟩

/-- New offsets go behind the old ones, which stay in front until the list is taken. -/
def left (old deletes : List Nat) : List Nat := if old <+: deletes then old else []

/-- The label is the beginning of a call of the thread. -/
def Begins (tid : Nat) : Label → Prop
  | .addTrackedobject t _ => t = tid
  | .addDatagraphpipelinesession t _ => t = tid
  | _ => False

instance (tid : Nat) : ∀ label, Decidable (Begins tid label)
  | .addTrackedobject t _ => inferInstanceAs (Decidable (t = tid))
  | .addDatagraphpipelinesession t _ => inferInstanceAs (Decidable (t = tid))
  | .advance _ | .freeImage _ | .freeBuffer _ | .freeTensor _ | .freeDatagraphpipelinesession _ =>
      inferInstanceAs (Decidable False)

/-- One call or one step of a search, by any thread. -/
def watch (config : Config) (tid : Nat) (w : Watched) (label : Label) : Option Watched :=
  (step config w.state label).map fun next =>
    let start := if Begins tid label then w.state else w.start
    let old := if Begins tid label then deletesAt w.state tid else w.old
    ⟨next, start, fun i => left (old i) (deletesAt next tid i)⟩

/-- A call of the thread returns with this step. -/
def Returns (tid : Nat) (label : Label) (next : Watched) : Prop :=
  (Begins tid label ∨ label = .advance tid) ∧ next.state.searches tid = none

/-- The objects of a dedicated heap have been freed. -/
def Retired (h : Heap) : Prop := h.dedicated = true ∧ ∀ s ∈ h.subs, s.offset ∈ h.deletes

/-- No heap of the thread has an offset that was queued before the call began, and a dedicated
heap whose object was freed before the call has been released. -/
def Drained (tid : Nat) (w : Watched) : Prop :=
  (∀ i, w.old i = []) ∧
    ∀ (i : Nat) (h : Heap), (w.start.heaps tid)[i]? = some h → Retired h →
      ∃ h' : Heap, (w.state.heaps tid)[i]? = some h' ∧ h'.mem = false

/-- The call looks for space in the heaps of its thread. -/
def searchesHeaps (st : State) : Label → Bool
  | .addTrackedobject _ data =>
      match st.aliases.getAliasLookup data.objectType data.index with
      | .ok (some ⟨some _, _⟩) => false
      | _ => !data.dedicatedAllocation
  | .addDatagraphpipelinesession _ data =>
      !(data.dedicatedAllocation || data.reqs.requiresDedicatedAllocation)
  | _ => false

/-- The search has taken the deletes of a heap. -/
def Visited (search : Search) (i : Nat) : Prop :=
  i < search.next ∨ (i = search.next ∧ search.drained = true)

/-- The object fits in the heap in which the search is. -/
def fits (config : Config) (st : State) (tid : Nat) (search : Search) : Bool :=
  match (st.heaps tid)[search.next]? with
  | none => false
  | some h =>
      search.drained && suits config h search.request && (placeIn h search.request.sub).isSome

/-- A call that does not look for space is made when no delete is pending in the heaps of its
thread, and a search stops at a heap only if no delete was pending behind it when it began. -/
def DrainsAll (config : Config) (tid : Nat) (w : Watched) (label : Label) : Prop :=
  (Begins tid label → searchesHeaps w.state label = false →
    ∀ h ∈ w.state.heaps tid, h.deletes = []) ∧
  (label = .advance tid → ∀ search ∈ w.state.searches tid,
    fits config w.state tid search = true →
      ∀ h ∈ (w.start.heaps tid).drop (search.next + 1), h.deletes = [])

instance (config : Config) (tid : Nat) (w : Watched) (label : Label) :
    Decidable (DrainsAll config tid w label) := inferInstanceAs (Decidable (_ ∧ _))

variable {config : Config} {st st' : State} {tid other i : Nat} {r : Request} {label : Label}
variable {heaps heaps' heaps'' : List Heap} {h h' : Heap} {w next : Watched} {search : Search}

/-- Offsets are added to the delete lists, and nothing else happens to the heaps. -/
def Queues (heaps heaps' : List Heap) : Prop :=
  heaps'.length = heaps.length ∧ ∀ (i : Nat) (h : Heap), heaps[i]? = some h →
    ∃ more, heaps'[i]? = some { h with deletes := h.deletes ++ more }

/-! ### Delete lists -/

theorem deletesAt_eq_nil_iff (st : State) (tid n : Nat) :
    (∀ i, n ≤ i → deletesAt st tid i = []) ↔ ∀ h ∈ (st.heaps tid).drop n, h.deletes = [] := by
  constructor
  · intro hall h hh
    obtain ⟨i, hi⟩ := List.getElem?_of_mem hh
    rw [List.getElem?_drop] at hi
    have hnone := hall (n + i) (Nat.le_add_right n i)
    simpa [deletesAt, hi] using hnone
  · intro hall i hi
    unfold deletesAt
    split
    · next h hh =>
      refine hall h (List.mem_of_getElem? (i := i - n) ?_)
      rw [List.getElem?_drop, Nat.add_sub_cancel' hi]
      exact hh
    · rfl

theorem Queues.refl (heaps : List Heap) : Queues heaps heaps := by
  constructor
  · rfl
  · intro i h hh
    exact ⟨[], by simpa using hh⟩

theorem Queues.trans (hq : Queues heaps heaps') (hq' : Queues heaps' heaps'') :
    Queues heaps heaps'' := by
  constructor
  · exact hq'.1.trans hq.1
  · intro i h hh
    obtain ⟨more, hmore⟩ := hq.2 i h hh
    obtain ⟨more', hmore'⟩ := hq'.2 i _ hmore
    exact ⟨more ++ more', by rw [hmore', List.append_assoc]⟩

theorem Queues.set (hh : heaps[i]? = some h) (offset : Nat) :
    Queues heaps (heaps.set i { h with deletes := h.deletes ++ [offset] }) := by
  constructor
  · exact List.length_set
  · intro j x hx
    rw [List.getElem?_set]
    by_cases hij : i = j
    · subst hij
      cases hh.symm.trans hx
      have hlt := (List.getElem?_eq_some_iff.mp hh).1
      exact ⟨[offset], by rw [if_pos rfl, if_pos hlt]⟩
    · exact ⟨[], by rw [if_neg hij, List.append_nil]; exact hx⟩

theorem Queues.deletes (hq : Queues (st.heaps tid) (st'.heaps tid)) (i : Nat) :
    deletesAt st tid i <+: deletesAt st' tid i := by
  unfold deletesAt
  cases hh : (st.heaps tid)[i]? with
  | none => exact List.nil_prefix
  | some h =>
      obtain ⟨more, hmore⟩ := hq.2 i h hh
      rw [hmore]
      exact List.prefix_append _ _

@[simp] theorem left_nil (deletes : List Nat) : left [] deletes = [] := by
  simp [left]

theorem left_eq_self {old deletes : List Nat} (hfront : old <+: deletes) :
    left old deletes = old := if_pos hfront

theorem left_taken (old : List Nat) : left old [] = [] := by
  unfold left
  split_ifs with h
  · exact List.prefix_nil.mp h
  · rfl

/-- A retired heap has no entries and no memory once its deletes are taken. -/
theorem drain_of_retired (hretired : Retired h) (hempty : h.subs = [] → h.mem = false) :
    (drain h).mem = false := by
  have herased : (eraseDeleted h.deletes h.subs).1 = [] := by
    rw [eraseDeleted_subs, List.filter_eq_nil_iff]
    intro s hs
    simpa using hretired.2 s hs
  unfold drain
  split_ifs with hdeletes
  · apply hempty
    rw [List.eq_nil_iff_forall_not_mem]
    intro s hs
    have hmem := hretired.2 s hs
    rw [List.isEmpty_iff.mp hdeletes] at hmem
    exact absurd hmem List.not_mem_nil
  · simp only [herased, hretired.1, List.isEmpty_nil, true_and]
    split_ifs with hmem
    · rfl
    · simpa using hmem

theorem deletes_drain (h : Heap) : (drain h).deletes = [] := by
  unfold drain
  split_ifs with hdeletes
  · exact List.isEmpty_iff.mp hdeletes
  · simp only
    split_ifs
    · rfl
    · rfl

/-! ### What the calls do to the heaps of a thread -/

/-- The heaps and the search of a thread, and the thread of its search, are as before. -/
structure Untouched (tid : Nat) (st st' : State) : Prop where
  heaps : st'.heaps tid = st.heaps tid
  searches : st'.searches tid = st.searches tid

/-- A thread gets a new heap. -/
def Grows (heaps heaps' : List Heap) : Prop :=
  ∃ h : Heap, heaps' = heaps ++ [h] ∧ h.deletes = [] ∧ h.subs ≠ []

theorem newHeap_grows {dedicated aliasGroup : Bool}
    (hnew : newHeap config r dedicated aliasGroup = some h) : h.deletes = [] ∧ h.subs ≠ [] := by
  unfold newHeap at hnew
  simp only at hnew
  split at hnew
  · cases hnew
    exact ⟨rfl, by simp⟩
  · cases hnew

theorem bind_heaps {home : HeapRef} {total : Nat} {s : Suballocation}
    (hbind : st.bind home total r s = some st') :
    st'.heaps = st.heaps ∧ st'.searches = st.searches := by
  obtain ⟨lookups, -, rfl⟩ := bind_eq_some hbind
  exact ⟨rfl, rfl⟩

theorem allocate_heaps {dedicated : Bool} (hallocate : allocate config st r dedicated = some st') :
    Grows (st.heaps r.tid) (st'.heaps r.tid) ∧ (∀ t, t ≠ r.tid → st'.heaps t = st.heaps t) ∧
      st'.searches = st.searches := by
  obtain ⟨h, hnew, hbind⟩ := allocate_eq_some hallocate
  obtain ⟨hheaps, hsearches⟩ := bind_heaps hbind
  refine ⟨⟨h, ?_, newHeap_grows hnew⟩, fun t ht => ?_, hsearches⟩
  · rw [hheaps]
    simp [State.pushHeap]
  · rw [hheaps]
    simp [State.pushHeap, ht]

/-- What the beginning of a call does. -/
structure Begun (st : State) (tid : Nat) (label : Label) (st' : State) : Prop where
  idle : st.searches tid = none
  others : ∀ t, t ≠ tid → Untouched t st st'
  searching : searchesHeaps st label = true → st'.heaps tid = st.heaps tid ∧
    ∃ r : Request, r.tid = tid ∧ st'.searches tid = some { request := r }
  direct : searchesHeaps st label = false → st'.searches tid = none ∧
    (st'.heaps tid = st.heaps tid ∨ Grows (st.heaps tid) (st'.heaps tid))

theorem place_begun {dedicated : Bool} (hplace : place config st r dedicated = some st')
    (hidle : st.searches r.tid = none) (hsearches : searchesHeaps st label = !dedicated) :
    Begun st r.tid label st' := by
  unfold place at hplace
  cases dedicated with
  | true =>
      rw [if_pos rfl] at hplace
      obtain ⟨hgrows, hothers, hsame⟩ := allocate_heaps hplace
      constructor
      · exact hidle
      · exact fun t ht => ⟨hothers t ht, by rw [hsame]⟩
      · intro h
        rw [hsearches] at h
        cases h
      · exact fun _ => ⟨by rw [hsame]; exact hidle, Or.inr hgrows⟩
  | false =>
      rw [if_neg (by decide)] at hplace
      split_ifs at hplace
      cases hplace
      constructor
      · exact hidle
      · exact fun t ht => ⟨rfl, Function.update_of_ne ht ..⟩
      · exact fun _ => ⟨rfl, r, rfl, Function.update_self ..⟩
      · intro h
        rw [hsearches] at h
        cases h

theorem addTrackedobject_begun {data : TrackedObject}
    (hadd : addTrackedobject config st tid data = some st') :
    Begun st tid (.addTrackedobject tid data) st' := by
  have hidle : st.searches tid = none := by
    unfold addTrackedobject at hadd
    split at hadd
    · case _ hready => exact hready.1
    · cases hadd
  cases addTrackedobject_added hadd with
  -- a later member of a group goes to where the group is
  | later hget hbind =>
      obtain ⟨home, h, -, -, hbind⟩ := bindMember_eq_some hbind
      obtain ⟨hheaps, hsearches⟩ := bind_heaps hbind
      constructor
      · exact hidle
      · exact fun t _ => ⟨by rw [hheaps], by rw [hsearches]⟩
      · intro h
        simp [searchesHeaps, hget] at h
      · exact fun _ => ⟨by rw [hsearches]; exact hidle, Or.inl (by rw [hheaps])⟩
  -- the first one gets a heap of the size of the group, at the end
  | @first group offset g reserved _ hget hg hfirst hreserve hbind =>
      obtain ⟨home, h, -, -, hbind⟩ := bindMember_eq_some hbind
      obtain ⟨hheaps, hsearches⟩ := bind_heaps hbind
      obtain ⟨memoryTypeIndex, h, hnew, rfl⟩ := reserveGroup_eq_some hreserve
      constructor
      · exact hidle
      · intro t ht
        exact ⟨by rw [hheaps]; simp [State.pushHeap, ht], by rw [hsearches]; rfl⟩
      · intro h
        simp [searchesHeaps, hget] at h
      · intro _
        refine ⟨by rw [hsearches]; exact hidle, Or.inr ⟨h, ?_, newHeap_grows hnew⟩⟩
        rw [hheaps]
        simp [State.pushHeap]
  -- an object of no group is placed as any other
  | @single entry memoryTypeIndex _ hget hnone halignment hplace =>
      refine place_begun hplace hidle ?_
      unfold searchesHeaps
      simp only [hget]
      split
      · next group offset heq =>
          cases heq
          exact absurd rfl (hnone _ _)
      · rfl

theorem addDatagraphpipelinesession_begun {data : SessionBinding}
    (hadd : addDatagraphpipelinesession config st tid data = some st') :
    Begun st tid (.addDatagraphpipelinesession tid data) st' := by
  have hidle : st.searches tid = none := by
    unfold addDatagraphpipelinesession at hadd
    split at hadd
    · case _ hready => exact hready.1
    · cases hadd
  obtain ⟨-, memoryTypeIndex, hplace⟩ := addDatagraphpipelinesession_eq_some hadd
  exact place_begun hplace hidle rfl

/-- What the next step of a search does to the heaps of its thread. -/
inductive Turn (config : Config) (st : State) (tid : Nat) (search : Search) (st' : State) :
    Prop where
  /-- Behind the last heap a new one is made. -/
  | allocated (hfits : fits config st tid search = false)
      (hlast : (st.heaps tid).length ≤ search.next)
      (hgrows : Grows (st.heaps tid) (st'.heaps tid)) (hsearches : st'.searches tid = none)
  /-- The object is placed in the heap in which the search is. -/
  | placed (h h' : Heap) (hfits : fits config st tid search = true)
      (hheap : (st.heaps tid)[search.next]? = some h)
      (hdrained : search.drained = true) (hmem : h.mem = true)
      (hheaps : st'.heaps tid = (st.heaps tid).set search.next h')
      (hdeletes : h'.deletes = h.deletes) (hsubs : h'.subs ≠ [])
      (hsearches : st'.searches tid = none)
  /-- The search goes to the next heap. -/
  | passed (hfits : fits config st tid search = false)
      (hinside : search.next < (st.heaps tid).length) (hdrained : search.drained = true)
      (hheaps : st'.heaps tid = st.heaps tid)
      (hsearches : st'.searches tid =
        some { search with next := search.next + 1, drained := false })
  /-- The deletes of the heap are taken. -/
  | drained (h : Heap) (hfits : fits config st tid search = false)
      (hheap : (st.heaps tid)[search.next]? = some h) (hnot : search.drained = false)
      (hheaps : st'.heaps tid = (st.heaps tid).set search.next (drain h))
      (hsearches : st'.searches tid = some { search with drained := true })

theorem scan_ne_nil {total : Nat} {s placed : Suballocation} {subs subs' : List Suballocation}
    (hscan : scan total s subs = some (subs', placed)) : subs' ≠ [] := by
  match subs with
  | [] => cases hscan
  | [it] =>
      unfold scan at hscan
      split at hscan
      · cases hscan
        simp
      · cases hscan
  | it :: other :: rest =>
      unfold scan at hscan
      split at hscan
      · cases hscan
        simp
      · split at hscan
        · cases hscan
          simp
        · cases hscan

theorem placeIn_kept {s placed : Suballocation} (hplace : placeIn h s = some (h', placed)) :
    h'.deletes = h.deletes ∧ h'.subs ≠ [] := by
  unfold placeIn at hplace
  split at hplace
  · cases hplace
    exact ⟨rfl, by simp⟩
  · split at hplace
    · next hscan =>
        cases hplace
        exact ⟨rfl, scan_ne_nil hscan⟩
    · cases hplace

theorem advance_turn (hadvance : advance config st tid = some st')
    (hown : ∀ search, st.searches tid = some search → search.request.tid = tid) :
    ∃ search, st.searches tid = some search ∧ Turn config st tid search st' ∧
      ∀ t, t ≠ tid → Untouched t st st' := by
  unfold advance at hadvance
  split at hadvance
  · cases hadvance
  · next search hsearch =>
    have hrequest := hown search hsearch
    refine ⟨search, hsearch, ?_⟩
    split at hadvance
    -- behind the last heap: a new one is allocated
    · next hnone =>
      obtain ⟨hgrows, hothers, hsame⟩ := allocate_heaps hadvance
      rw [hrequest] at hgrows
      constructor
      · refine .allocated (by simp [fits, hnone]) (by simpa using hnone) hgrows ?_
        rw [hsame]
        simp
      · intro t ht
        exact ⟨hothers t (by rw [hrequest]; exact ht), by rw [hsame]; simp [ht]⟩
    · next h hheap =>
      split at hadvance
      -- the deletes of the heap have been taken, and it is tried
      · next hdrained =>
        split at hadvance
        · next h' placed hplace =>
          have hsuits : suits config h search.request = true := by
            by_contra hnot
            simp [hnot] at hplace
          rw [if_pos hsuits] at hplace
          obtain ⟨hdeletes, hsubs⟩ := placeIn_kept hplace
          obtain ⟨hheaps, hsame⟩ := bind_heaps hadvance
          have hmem : h.mem = true := by
            simp only [suits, decide_eq_true_eq] at hsuits
            exact hsuits.1
          constructor
          · refine .placed h h' (by simp [fits, hheap, hdrained, hsuits, hplace]) hheap hdrained
              hmem ?_ hdeletes hsubs ?_
            · rw [hheaps]
              simp [State.setHeap]
            · rw [hsame]
              simp [State.setHeap]
          · intro t ht
            constructor
            · rw [hheaps]
              simp [State.setHeap, ht]
            · rw [hsame]
              simp [State.setHeap, ht]
        · next hplace =>
          cases hadvance
          have hfits : fits config st tid search = false := by
            by_cases hsuits : suits config h search.request = true
            · rw [if_pos hsuits] at hplace
              simp [fits, hheap, hplace]
            · simp [fits, hheap, hsuits]
          constructor
          · exact .passed hfits (List.getElem?_eq_some_iff.mp hheap).1 hdrained rfl (by simp)
          · exact fun t ht => ⟨rfl, by simp [ht]⟩
      -- the deletes are taken first
      · next hnot =>
        cases hadvance
        constructor
        · refine .drained h (by simp [fits, hheap, hnot]) hheap (by simpa using hnot) ?_ (by simp)
          simp [State.setHeap]
        · intro t ht
          exact ⟨by simp [State.setHeap, ht], by simp [ht]⟩

theorem release_queues (st : State) (key : Key) (l : Lookup) :
    (∀ t, Queues (st.heaps t) ((release st key l).heaps t)) ∧
      (release st key l).searches = st.searches := by
  unfold release
  split
  · exact ⟨fun _ => .refl _, rfl⟩
  · next home hhome =>
    simp only
    split_ifs
    · exact ⟨fun _ => .refl _, rfl⟩
    · split
      · exact ⟨fun _ => .refl _, rfl⟩
      · next h hheap =>
        refine ⟨fun t => ?_, rfl⟩
        by_cases ht : t = home.1
        · subst ht
          simp only [State.setHeap, Function.update_self]
          exact Queues.set hheap _
        · simp only [State.setHeap, Function.update_of_ne ht]
          exact .refl _

theorem freeEntries_queues (session : Nat) (entries : List DatagraphLookup) :
    (∀ t, Queues (st.heaps t) ((freeEntries session entries st).heaps t)) ∧
      (freeEntries session entries st).searches = st.searches := by
  induction entries generalizing st with
  | nil => exact ⟨fun _ => .refl _, rfl⟩
  | cons e rest ih =>
      obtain ⟨hqueues, hsearches⟩ :=
        release_queues st (.binding session e.bindPoint e.objectIndex) e.loc
      unfold freeEntries
      simp only
      obtain ⟨hrest, hrestSearches⟩ := ih
      exact ⟨fun t => (hqueues t).trans (hrest t), hrestSearches.trans hsearches⟩

theorem freeObject_queues {type : ObjectType} {index : Nat}
    (hfree : freeObject st type index = some st') :
    (∀ t, Queues (st.heaps t) (st'.heaps t)) ∧ st'.searches = st.searches := by
  obtain rfl | ⟨l, -, rfl⟩ := freeObject_cases hfree
  · exact ⟨fun _ => .refl _, rfl⟩
  · exact release_queues st (.object type index) l

theorem freeDatagraphpipelinesession_queues {index : Nat}
    (hfree : freeDatagraphpipelinesession st index = some st') :
    (∀ t, Queues (st.heaps t) (st'.heaps t)) ∧ st'.searches = st.searches := by
  obtain rfl | ⟨entries, -, rfl⟩ := freeDatagraphpipelinesession_cases hfree
  · exact ⟨fun _ => .refl _, rfl⟩
  · exact freeEntries_queues index entries

/-- What a step is for the heaps: a call begins, a search goes on, or deletes are queued. -/
inductive Stepped (config : Config) (st : State) (label : Label) (st' : State) : Prop where
  | begun (t : Nat) (hbegins : Begins t label) (hbegun : Begun st t label st')
  | turn (t : Nat) (search : Search) (hlabel : label = .advance t)
      (hsearch : st.searches t = some search) (hturn : Turn config st t search st')
      (hothers : ∀ t', t' ≠ t → Untouched t' st st')
  | queued (hfree : ∀ t, ¬ Begins t label ∧ label ≠ .advance t)
      (hqueues : ∀ t, Queues (st.heaps t) (st'.heaps t)) (hsearches : st'.searches = st.searches)

theorem step_stepped (hstep : step config st label = some st')
    (hown : ∀ t search, st.searches t = some search → search.request.tid = t) :
    Stepped config st label st' := by
  cases label with
  | addTrackedobject t data => exact .begun t rfl (addTrackedobject_begun hstep)
  | addDatagraphpipelinesession t data =>
      exact .begun t rfl (addDatagraphpipelinesession_begun hstep)
  | advance t =>
      obtain ⟨search, hsearch, hturn, hothers⟩ := advance_turn hstep (hown t)
      exact .turn t search rfl hsearch hturn hothers
  | freeImage index =>
      obtain ⟨hqueues, hsearches⟩ := freeObject_queues hstep
      exact .queued (fun _ => ⟨id, by simp⟩) hqueues hsearches
  | freeBuffer index =>
      obtain ⟨hqueues, hsearches⟩ := freeObject_queues hstep
      exact .queued (fun _ => ⟨id, by simp⟩) hqueues hsearches
  | freeTensor index =>
      obtain ⟨hqueues, hsearches⟩ := freeObject_queues hstep
      exact .queued (fun _ => ⟨id, by simp⟩) hqueues hsearches
  | freeDatagraphpipelinesession index =>
      obtain ⟨hqueues, hsearches⟩ := freeDatagraphpipelinesession_queues hstep
      exact .queued (fun _ => ⟨id, by simp⟩) hqueues hsearches

/-! ### What a search has taken -/

/-- A dedicated heap without entries has been released. -/
def Released (heaps : List Heap) : Prop :=
  ∀ h ∈ heaps, h.dedicated = true → h.subs = [] → h.mem = false

/-- The heaps in front of the search have given up their deletes, and those behind it are as they
were when the call began, up to new deletes. -/
structure Searching (tid : Nat) (w : Watched) (search : Search) : Prop where
  length : (w.state.heaps tid).length = (w.start.heaps tid).length
  taken : ∀ i, Visited search i → w.old i = []
  waiting : ∀ i, ¬ Visited search i → w.old i = deletesAt w.start tid i
  retired : ∀ (i : Nat) (h : Heap), (w.start.heaps tid)[i]? = some h → Visited search i →
    Retired h → ∃ h' : Heap, (w.state.heaps tid)[i]? = some h' ∧ h'.mem = false
  queued : ∀ (i : Nat) (h : Heap), (w.start.heaps tid)[i]? = some h → ¬ Visited search i →
    ∃ more, (w.state.heaps tid)[i]? = some { h with deletes := h.deletes ++ more }

/-- What holds of the heaps of the thread between the steps. -/
structure Watched.Inv (tid : Nat) (w : Watched) : Prop where
  own : ∀ t search, w.state.searches t = some search → search.request.tid = t
  released : Released (w.state.heaps tid)
  searching : ∀ search, w.state.searches tid = some search → Searching tid w search

theorem Released.queues (hreleased : Released heaps) (hq : Queues heaps heaps') :
    Released heaps' := by
  intro h' hmem hdedicated hempty
  obtain ⟨i, hi, rfl⟩ := List.getElem_of_mem hmem
  have hlt : i < heaps.length := hq.1 ▸ hi
  obtain ⟨more, hmore⟩ := hq.2 i heaps[i] (List.getElem?_eq_getElem hlt)
  rw [List.getElem?_eq_getElem hi, Option.some_inj] at hmore
  rw [hmore] at hdedicated hempty ⊢
  exact hreleased heaps[i] (List.getElem_mem hlt) hdedicated hempty

theorem Released.grows (hreleased : Released heaps) (hgrows : Grows heaps heaps') :
    Released heaps' := by
  obtain ⟨new, rfl, -, hsubs⟩ := hgrows
  intro h hmem hdedicated hempty
  rcases List.mem_append.mp hmem with hold | hnew
  · exact hreleased h hold hdedicated hempty
  · rw [List.mem_singleton.mp hnew] at hempty
    exact absurd hempty hsubs

theorem Released.set (hreleased : Released heaps)
    (hnew : h'.dedicated = true → h'.subs = [] → h'.mem = false) :
    Released (heaps.set i h') := by
  intro h hmem hdedicated hempty
  rcases List.mem_or_eq_of_mem_set hmem with hold | rfl
  · exact hreleased h hold hdedicated hempty
  · exact hnew hdedicated hempty

theorem drain_released (hreleased : h.dedicated = true → h.subs = [] → h.mem = false)
    (hdedicated : (drain h).dedicated = true) (hempty : (drain h).subs = []) :
    (drain h).mem = false := by
  unfold drain at hdedicated hempty ⊢
  split_ifs at hdedicated hempty ⊢ with hdeletes
  · exact hreleased hdedicated hempty
  · simp only at hdedicated hempty ⊢
    split_ifs at hdedicated hempty ⊢ with hretire
    · rfl
    · simp only at hdedicated hempty ⊢
      by_contra hmem
      exact hretire ⟨hdedicated, by simp [hempty], by simpa using hmem⟩

theorem Searching.start_none (hsearching : Searching tid w search)
    (hnone : (w.state.heaps tid)[i]? = none) : deletesAt w.start tid i = [] := by
  have hstart : (w.start.heaps tid)[i]? = none := by
    rw [List.getElem?_eq_none_iff, ← hsearching.length]
    exact List.getElem?_eq_none_iff.mp hnone
  simp [deletesAt, hstart]

/-- The old offsets are in front of the list. -/
theorem Searching.front (hsearching : Searching tid w search) (i : Nat) :
    w.old i <+: deletesAt w.state tid i := by
  by_cases hvisited : Visited search i
  · rw [hsearching.taken i hvisited]
    exact List.nil_prefix
  · rw [hsearching.waiting i hvisited]
    cases hstart : (w.start.heaps tid)[i]? with
    | none =>
        simp [deletesAt, hstart]
    | some h =>
        obtain ⟨more, hmore⟩ := hsearching.queued i h hstart hvisited
        simp [deletesAt, hstart, hmore]

/-- Steps that only queue deletes leave a search where it was. -/
theorem Searching.queues (st' : State) (hsearching : Searching tid w search)
    (hq : Queues (w.state.heaps tid) (st'.heaps tid)) :
    Searching tid ⟨st', w.start, fun i => left (w.old i) (deletesAt st' tid i)⟩ search := by
  have hkept : ∀ i, left (w.old i) (deletesAt st' tid i) = w.old i := fun i =>
    left_eq_self ((hsearching.front i).trans (hq.deletes i))
  constructor
  · exact hq.1.trans hsearching.length
  · intro i hvisited
    exact (hkept i).trans (hsearching.taken i hvisited)
  · intro i hvisited
    exact (hkept i).trans (hsearching.waiting i hvisited)
  · intro i h hstart hvisited hretired
    obtain ⟨h', hh', hmem⟩ := hsearching.retired i h hstart hvisited hretired
    obtain ⟨more, hmore⟩ := hq.2 i h' hh'
    exact ⟨_, hmore, hmem⟩
  · intro i h hstart hvisited
    obtain ⟨more, hmore⟩ := hsearching.queued i h hstart hvisited
    obtain ⟨more', hmore'⟩ := hq.2 i _ hmore
    exact ⟨more ++ more', by rw [hmore', List.append_assoc]⟩

/-- The turn in which the deletes of a heap are taken. -/
theorem Searching.drained (hsearching : Searching tid w search)
    (hreleased : Released (w.state.heaps tid))
    (hheap : (w.state.heaps tid)[search.next]? = some h) (hnot : search.drained = false)
    (hheaps : st'.heaps tid = (w.state.heaps tid).set search.next (drain h)) :
    Searching tid ⟨st', w.start, fun i => left (w.old i) (deletesAt st' tid i)⟩
      { search with drained := true } := by
  have hlt := (List.getElem?_eq_some_iff.mp hheap).1
  have hvisited : ∀ i, Visited { search with drained := true } i ↔
      Visited search i ∨ i = search.next := by
    intro i
    simp [Visited, hnot]
  have hself : (st'.heaps tid)[search.next]? = some (drain h) := by
    rw [hheaps, List.getElem?_set_self hlt]
  have hother : ∀ i, i ≠ search.next → (st'.heaps tid)[i]? = (w.state.heaps tid)[i]? := by
    intro i hi
    rw [hheaps, List.getElem?_set_ne hi.symm]
  have hkept : ∀ i, i ≠ search.next → left (w.old i) (deletesAt st' tid i) = w.old i := by
    intro i hi
    apply left_eq_self
    have hfront := hsearching.front i
    unfold deletesAt at hfront ⊢
    rw [hother i hi]
    exact hfront
  have hnext : ¬ Visited search search.next := by simp [Visited, hnot]
  constructor
  · show (st'.heaps tid).length = _
    rw [hheaps, List.length_set]
    exact hsearching.length
  · intro i hi
    by_cases hne : i = search.next
    · subst hne
      show left _ _ = []
      rw [deletesAt, hself]
      show left _ (drain h).deletes = []
      rw [deletes_drain, left_taken]
    · exact (hkept i hne).trans (hsearching.taken i (((hvisited i).mp hi).resolve_right hne))
  · intro i hi
    have hne : i ≠ search.next := fun h => hi ((hvisited i).mpr (Or.inr h))
    exact (hkept i hne).trans (hsearching.waiting i fun h => hi ((hvisited i).mpr (Or.inl h)))
  · intro i h0 hstart hi hretired
    -- what was retired when the call began, and lost its last entry just now
    by_cases hne : i = search.next
    · subst hne
      obtain ⟨more, hmore⟩ := hsearching.queued _ h0 hstart hnext
      rw [hheap, Option.some_inj] at hmore
      have hnow : Retired h := by
        rw [hmore]
        exact ⟨hretired.1, fun s hs => List.mem_append_left _ (hretired.2 s hs)⟩
      have hempty := hreleased h (List.mem_of_getElem? hheap) hnow.1
      exact ⟨_, hself, drain_of_retired hnow hempty⟩
    · obtain ⟨h', hh', hmem⟩ := hsearching.retired i h0 hstart
        (((hvisited i).mp hi).resolve_right hne) hretired
      exact ⟨h', (hother i hne).trans hh', hmem⟩
  · intro i h0 hstart hi
    have hne : i ≠ search.next := fun h => hi ((hvisited i).mpr (Or.inr h))
    obtain ⟨more, hmore⟩ := hsearching.queued i h0 hstart fun h => hi ((hvisited i).mpr (Or.inl h))
    exact ⟨more, (hother i hne).trans hmore⟩

/-- The turn in which the search goes to the next heap. -/
theorem Searching.passed (hsearching : Searching tid w search) (hdrained : search.drained = true)
    (hheaps : st'.heaps tid = w.state.heaps tid) :
    Searching tid ⟨st', w.start, fun i => left (w.old i) (deletesAt st' tid i)⟩
      { search with next := search.next + 1, drained := false } := by
  have hsame := hsearching.queues st' (by rw [hheaps]; exact .refl _)
  have hvisited : ∀ i, Visited { search with next := search.next + 1, drained := false } i ↔
      Visited search i := by
    intro i
    simp only [Visited, hdrained, Bool.false_eq_true, and_false, or_false, and_true]
    omega
  constructor
  · exact hsame.length
  · exact fun i hi => hsame.taken i ((hvisited i).mp hi)
  · exact fun i hi => hsame.waiting i (mt (hvisited i).mpr hi)
  · exact fun i h hstart hi => hsame.retired i h hstart ((hvisited i).mp hi)
  · exact fun i h hstart hi => hsame.queued i h hstart (mt (hvisited i).mpr hi)

/-! ### One step -/

theorem Begins.unique (hbegins : Begins tid label) (hother : Begins other label) : tid = other := by
  cases label with
  | addTrackedobject t data => exact (Eq.symm hbegins).trans hother
  | addDatagraphpipelinesession t data => exact (Eq.symm hbegins).trans hother
  | advance t => exact hbegins.elim
  | freeImage index => exact hbegins.elim
  | freeBuffer index => exact hbegins.elim
  | freeTensor index => exact hbegins.elim
  | freeDatagraphpipelinesession index => exact hbegins.elim

theorem not_advance_of_begins (hbegins : Begins tid label) : label ≠ .advance other := by
  rintro rfl
  exact hbegins

/-- A search is the one of its thread. -/
theorem Stepped.own (hstepped : Stepped config st label st')
    (hown : ∀ t search, st.searches t = some search → search.request.tid = t) :
    ∀ t search, st'.searches t = some search → search.request.tid = t := by
  intro t search hsearch
  cases hstepped with
  | begun t' hbegins hbegun =>
      by_cases ht : t = t'
      · subst ht
        cases hsearches : searchesHeaps st label with
        | true =>
            obtain ⟨-, r, hr, hnew⟩ := hbegun.searching hsearches
            cases hsearch.symm.trans hnew
            exact hr
        | false =>
            rw [(hbegun.direct hsearches).1] at hsearch
            cases hsearch
      · exact hown t search (((hbegun.others t ht).searches).symm.trans hsearch)
  | turn t' old hlabel hold hturn hothers =>
      by_cases ht : t = t'
      · subst ht
        have hrequest := hown t old hold
        -- a search that ends is no longer there; one that goes on is the same request
        cases hturn with
        | allocated _ _ _ hnew => cases hsearch.symm.trans hnew
        | placed _ _ _ _ _ _ _ _ _ hnew => cases hsearch.symm.trans hnew
        | passed _ _ _ _ hnew =>
            cases hsearch.symm.trans hnew
            exact hrequest
        | drained _ _ _ _ _ hnew =>
            cases hsearch.symm.trans hnew
            exact hrequest
      · exact hown t search (((hothers t ht).searches).symm.trans hsearch)
  | queued hfree hqueues hsearches =>
      rw [hsearches] at hsearch
      exact hown t search hsearch

/-- The steps of other threads, and the calls that free objects. -/
theorem Watched.Inv.queues (hinv : w.Inv tid)
    (hown : ∀ t search, st'.searches t = some search → search.request.tid = t)
    (hq : Queues (w.state.heaps tid) (st'.heaps tid))
    (hsearches : st'.searches tid = w.state.searches tid) :
    Watched.Inv tid ⟨st', w.start, fun i => left (w.old i) (deletesAt st' tid i)⟩ where
  own := hown
  released := hinv.released.queues hq
  searching := fun search hsearch =>
    (hinv.searching search (hsearches.symm.trans hsearch)).queues st' hq

/-- A call of the thread begins. -/
theorem Begun.watched (hbegun : Begun st tid label st') (hbegins : Begins tid label)
    (hown : ∀ t search, st'.searches t = some search → search.request.tid = t)
    (hreleased : Released (st.heaps tid)) (hnext : next = ⟨st', st,
      fun i => left (deletesAt st tid i) (deletesAt st' tid i)⟩) :
    next.Inv tid ∧ ((Returns tid label next → Drained tid next) ↔
      (searchesHeaps st label = false → ∀ h ∈ st.heaps tid, h.deletes = [])) := by
  subst hnext
  have hall := deletesAt_eq_nil_iff st tid 0
  simp only [Nat.zero_le, true_implies, List.drop_zero] at hall
  rw [← hall]
  cases hsearches : searchesHeaps st label with
  -- nothing is drained yet: the search has still to begin
  | true =>
      obtain ⟨hheaps, r, hr, hnew⟩ := hbegun.searching hsearches
      have hq : Queues (st.heaps tid) (st'.heaps tid) := by
        rw [hheaps]
        exact .refl _
      constructor
      · constructor
        · exact hown
        · exact hreleased.queues hq
        · intro search hsearch
          cases hnew.symm.trans hsearch
          have hvisited : ∀ i, ¬ Visited { request := r } i := by
            intro i
            simp [Visited]
          constructor
          · exact hq.1
          · exact fun i hi => absurd hi (hvisited i)
          · exact fun i _ => left_eq_self (hq.deletes i)
          · exact fun i _ _ hi => absurd hi (hvisited i)
          · exact fun i h hh _ => hq.2 i h hh
      · refine iff_of_true (fun hreturns => ?_) (fun h => by cases h)
        cases hnew.symm.trans hreturns.2
  -- the call is over at once: it has looked into no heap
  | false =>
      obtain ⟨hidle, hheaps⟩ := hbegun.direct hsearches
      have hkept : ∀ i, i < (st.heaps tid).length →
          (st'.heaps tid)[i]? = (st.heaps tid)[i]? := by
        intro i hi
        rcases hheaps with hsame | ⟨new, hnew, -, -⟩
        · rw [hsame]
        · rw [hnew, List.getElem?_append_left hi]
      have hold : ∀ i, left (deletesAt st tid i) (deletesAt st' tid i) = deletesAt st tid i := by
        intro i
        by_cases hi : i < (st.heaps tid).length
        · apply left_eq_self
          simp [deletesAt, hkept i hi]
        · simp [deletesAt, List.getElem?_eq_none (not_lt.mp hi)]
      constructor
      · constructor
        · exact hown
        · show Released (st'.heaps tid)
          rcases hheaps with hsame | hgrows
          · rw [hsame]
            exact hreleased
          · exact hreleased.grows hgrows
        · intro search hsearch
          cases hidle.symm.trans hsearch
      · constructor
        · intro hdrained _ i
          rw [← hold i]
          exact (hdrained ⟨Or.inl hbegins, hidle⟩).1 i
        · intro hempty _
          have hnone := hempty rfl
          constructor
          · intro i
            exact (hold i).trans (hnone i)
          · intro i h hh hretired
            refine ⟨h, (hkept i (List.getElem?_eq_some_iff.mp hh).1).trans hh, ?_⟩
            have hdeletes := hnone i
            simp only [deletesAt, hh] at hdeletes
            refine hreleased h (List.mem_of_getElem? hh) hretired.1 ?_
            rw [List.eq_nil_iff_forall_not_mem]
            intro s hs
            have hmem := hretired.2 s hs
            rw [hdeletes] at hmem
            exact absurd hmem List.not_mem_nil

/-- A search ends behind the last heap: it has been everywhere. -/
theorem Searching.drained_of_last (hsearching : Searching tid w search)
    (hlast : (w.state.heaps tid).length ≤ search.next)
    (hgrows : Grows (w.state.heaps tid) (st'.heaps tid)) :
    Drained tid ⟨st', w.start, fun i => left (w.old i) (deletesAt st' tid i)⟩ := by
  constructor
  · intro i
    have hnone : w.old i = [] := by
      by_cases hi : i < search.next
      · exact hsearching.taken i (Or.inl hi)
      · by_cases hvisited : Visited search i
        · exact hsearching.taken i hvisited
        · rw [hsearching.waiting i hvisited]
          exact hsearching.start_none (List.getElem?_eq_none (by omega))
    show left (w.old i) _ = []
    rw [hnone, left_nil]
  · intro i h hstart hretired
    have hi : i < (w.state.heaps tid).length := by
      rw [hsearching.length]
      exact (List.getElem?_eq_some_iff.mp hstart).1
    obtain ⟨h', hh', hmem⟩ :=
      hsearching.retired i h hstart (Or.inl (by omega)) hretired
    obtain ⟨new, hnew, -, -⟩ := hgrows
    refine ⟨h', ?_, hmem⟩
    show (st'.heaps tid)[i]? = _
    rw [hnew, List.getElem?_append_left hi]
    exact hh'

/-- A search ends in a heap: what is behind the heap has not been taken. -/
theorem Searching.drained_of_placed_iff (hsearching : Searching tid w search)
    (hreleased : Released (w.state.heaps tid))
    (hheap : (w.state.heaps tid)[search.next]? = some h) (hdrained : search.drained = true)
    (hmem : h.mem = true) (hheaps : st'.heaps tid = (w.state.heaps tid).set search.next h')
    (hdeletes : h'.deletes = h.deletes) :
    Drained tid ⟨st', w.start, fun i => left (w.old i) (deletesAt st' tid i)⟩ ↔
      ∀ i, search.next < i → deletesAt w.start tid i = [] := by
  have hlt := (List.getElem?_eq_some_iff.mp hheap).1
  have hsame : ∀ i, deletesAt st' tid i = deletesAt w.state tid i := by
    intro i
    unfold deletesAt
    rw [hheaps, List.getElem?_set]
    by_cases hi : search.next = i
    · subst hi
      rw [if_pos rfl, if_pos hlt, hheap]
      exact hdeletes
    · rw [if_neg hi]
  have hold : ∀ i, left (w.old i) (deletesAt st' tid i) = w.old i := by
    intro i
    rw [hsame]
    exact left_eq_self (hsearching.front i)
  have hvisited : ∀ i, Visited search i ↔ i ≤ search.next := by
    intro i
    simp only [Visited, hdrained, and_true]
    omega
  constructor
  · intro hall i hi
    rw [← hsearching.waiting i (by rw [hvisited]; omega), ← hold i]
    exact hall.1 i
  · intro hbehind
    constructor
    · intro i
      refine (hold i).trans ?_
      by_cases hi : i ≤ search.next
      · exact hsearching.taken i ((hvisited i).mpr hi)
      · rw [hsearching.waiting i (by rw [hvisited]; exact hi)]
        exact hbehind i (by omega)
    · intro i h0 hstart hretired
      by_cases hi : i ≤ search.next
      · obtain ⟨x, hx, hxmem⟩ :=
          hsearching.retired i h0 hstart ((hvisited i).mpr hi) hretired
        have hne : search.next ≠ i := by
          rintro rfl
          cases hheap.symm.trans hx
          rw [hmem] at hxmem
          cases hxmem
        refine ⟨x, ?_, hxmem⟩
        show (st'.heaps tid)[i]? = _
        rw [hheaps, List.getElem?_set_ne hne]
        exact hx
      · -- no delete was pending in this heap, so it had no entries already
        obtain ⟨more, hmore⟩ := hsearching.queued i h0 hstart (by rw [hvisited]; exact hi)
        refine ⟨{ h0 with deletes := h0.deletes ++ more }, ?_, ?_⟩
        · show (st'.heaps tid)[i]? = _
          rw [hheaps, List.getElem?_set_ne (by omega)]
          exact hmore
        · have hnone := hbehind i (by omega)
          simp only [deletesAt, hstart] at hnone
          refine hreleased _ (List.mem_of_getElem? hmore) hretired.1 ?_
          rw [List.eq_nil_iff_forall_not_mem]
          intro s hs
          have hpending := hretired.2 s hs
          rw [hnone] at hpending
          exact absurd hpending List.not_mem_nil

/-- A search of the thread goes on. -/
theorem Turn.watched (hturn : Turn config w.state tid search st') (hinv : w.Inv tid)
    (hsearch : w.state.searches tid = some search)
    (hown : ∀ t search, st'.searches t = some search → search.request.tid = t)
    (hnext : next = ⟨st', w.start, fun i => left (w.old i) (deletesAt st' tid i)⟩) :
    next.Inv tid ∧ ((next.state.searches tid = none → Drained tid next) ↔
      (fits config w.state tid search = true →
        ∀ i, search.next < i → deletesAt w.start tid i = [])) := by
  subst hnext
  have hsearching := hinv.searching search hsearch
  -- only the first two end the search
  cases hturn with
  | allocated hfits hlast hgrows hidle =>
      constructor
      · refine ⟨hown, hinv.released.grows hgrows, fun other hother => ?_⟩
        cases hidle.symm.trans hother
      · refine iff_of_true (fun _ => hsearching.drained_of_last hlast hgrows) fun h => ?_
        rw [hfits] at h
        cases h
  | placed h h' hfits hheap hdrained hmem hheaps hdeletes hsubs hidle =>
      constructor
      · refine ⟨hown, ?_, fun other hother => ?_⟩
        · show Released (st'.heaps tid)
          rw [hheaps]
          exact hinv.released.set fun _ hempty => absurd hempty hsubs
        · cases hidle.symm.trans hother
      · have hiff := hsearching.drained_of_placed_iff hinv.released hheap hdrained hmem hheaps
          hdeletes
        exact ⟨fun hall _ => hiff.mp (hall hidle), fun hall _ => hiff.mpr (hall hfits)⟩
  | passed hfits hinside hdrained hheaps hmore =>
      constructor
      · refine ⟨hown, ?_, fun other hother => ?_⟩
        · show Released (st'.heaps tid)
          rw [hheaps]
          exact hinv.released
        · cases hmore.symm.trans hother
          exact hsearching.passed hdrained hheaps
      · refine iff_of_true (fun hidle => ?_) fun h => ?_
        · cases hmore.symm.trans hidle
        · rw [hfits] at h
          cases h
  | drained h hfits hheap hnot hheaps hmore =>
      constructor
      · refine ⟨hown, ?_, fun other hother => ?_⟩
        · show Released (st'.heaps tid)
          rw [hheaps]
          exact hinv.released.set
            (drain_released (hinv.released h (List.mem_of_getElem? hheap)))
        · cases hmore.symm.trans hother
          exact hsearching.drained hinv.released hheap hnot hheaps
      · refine iff_of_true (fun hidle => ?_) fun h => ?_
        · cases hmore.symm.trans hidle
        · rw [hfits] at h
          cases h

/-- One step keeps the invariant, and if a call of the thread returns with it, the deletes are
drained exactly under the condition. -/
theorem watch_spec (hinv : w.Inv tid) (hwatch : watch config tid w label = some next) :
    next.Inv tid ∧ ((Returns tid label next → Drained tid next) ↔
      DrainsAll config tid w label) := by
  obtain ⟨st', hstep, rfl⟩ := Option.map_eq_some_iff.mp hwatch
  have hstepped := step_stepped hstep hinv.own
  have hown := hstepped.own hinv.own
  cases hstepped with
  | begun t hbegins hbegun =>
      by_cases ht : tid = t
      · subst ht
        simp only [hbegins, if_true]
        obtain ⟨hnext, hiff⟩ := hbegun.watched hbegins hown hinv.released rfl
        refine ⟨hnext, hiff.trans ?_⟩
        unfold DrainsAll
        simp [hbegins, not_advance_of_begins hbegins]
      -- a call of another thread leaves the heaps of this one alone
      · have hnot : ¬ Begins tid label := fun h => ht (h.unique hbegins)
        have hsame := hbegun.others tid ht
        simp only [hnot, if_false]
        refine ⟨hinv.queues hown (by rw [hsame.heaps]; exact .refl _) hsame.searches, ?_⟩
        refine iff_of_true (fun hreturns => ?_) ⟨fun h => absurd h hnot, fun h => ?_⟩
        · rcases hreturns.1 with h | h
          · exact absurd h hnot
          · exact absurd h (not_advance_of_begins hbegins)
        · exact absurd h (not_advance_of_begins hbegins)
  | turn t search hlabel hsearch hturn hothers =>
      have hnot : ¬ Begins tid label := fun h => not_advance_of_begins h hlabel
      simp only [hnot, if_false]
      by_cases ht : tid = t
      · subst ht
        obtain ⟨hnext, hiff⟩ := hturn.watched hinv hsearch hown rfl
        refine ⟨hnext, ?_⟩
        constructor
        · intro hdrained
          refine ⟨fun h => absurd h hnot, fun _ other hother => ?_⟩
          cases hsearch.symm.trans hother
          intro hfits
          rw [← deletesAt_eq_nil_iff]
          exact hiff.mp (fun hidle => hdrained ⟨Or.inr hlabel, hidle⟩) hfits
        · intro hall hreturns
          refine hiff.mpr (fun hfits => ?_) hreturns.2
          have hbehind := hall.2 hlabel search hsearch hfits
          rw [← deletesAt_eq_nil_iff] at hbehind
          exact hbehind
      · have hsame := hothers tid ht
        have hadvance : label ≠ .advance tid := by
          rw [hlabel]
          exact fun h => ht (Label.advance.inj h).symm
        refine ⟨hinv.queues hown (by rw [hsame.heaps]; exact .refl _) hsame.searches, ?_⟩
        refine iff_of_true (fun hreturns => ?_) ⟨fun h => absurd h hnot, fun h => ?_⟩
        · rcases hreturns.1 with h | h
          · exact absurd h hnot
          · exact absurd h hadvance
        · exact absurd h hadvance
  | queued hfree hqueues hsearches =>
      -- objects may be freed at any time, which only adds to the queues
      obtain ⟨hnot, hadvance⟩ := hfree tid
      simp only [hnot, if_false]
      refine ⟨hinv.queues hown (hqueues tid) (by rw [hsearches]), ?_⟩
      refine iff_of_true (fun hreturns => ?_) ⟨fun h => absurd h hnot, fun h => absurd h hadvance⟩
      rcases hreturns.1 with h | h
      · exact absurd h hnot
      · exact absurd h hadvance

theorem inv_watched_create (threads images buffers tensors sessions : Nat) (aliases : Aliases) :
    (watched (create threads images buffers tensors sessions aliases)).Inv tid where
  own := fun _ _ h => by cases h
  released := fun _ h => by cases h
  searching := fun _ h => by cases h

/-- **Pending deletes.**  In a run of the calls of all threads, every call of a thread that returns
has drained the heaps of the thread exactly if the calls of the thread meet the condition. -/
theorem pending_deletes_drained_iff {threads images buffers tensors sessions : Nat}
    {aliases : Aliases} {labels : List Label} {final : Watched}
    (hexec : exec (watch config tid)
      (watched (create threads images buffers tensors sessions aliases)) labels = some final) :
    (∀ k middle label next, exec (watch config tid)
        (watched (create threads images buffers tensors sessions aliases)) (labels.take k) =
          some middle → labels[k]? = some label → watch config tid middle label = some next →
      Returns tid label next → Drained tid next) ↔
      Along (watch config tid) (DrainsAll config tid)
        (watched (create threads images buffers tensors sessions aliases)) labels :=
  steps_iff_along (fun _ _ _ hinv hwatch => (watch_spec hinv hwatch).1)
    (fun _ _ _ hinv hwatch => (watch_spec hinv hwatch).2)
    (inv_watched_create threads images buffers tensors sessions aliases) hexec

/-- A buffer in memory of its own. -/
def dedicatedBuffer (index : Nat) : TrackedObject :=
  { bufferOf index 16 with dedicatedAllocation := true }

/-- Nothing is bound, with room for three buffers. -/
def threeBuffers : State := create 1 0 3 0 0 { bufferAliasLookup := List.replicate 3 {} }

theorem pending_deletes_drained_reuse :
    ∃ final, exec (watch oneType 0) (watched threeBuffers) reuse = some final ∧
      ∀ k middle label next, exec (watch oneType 0) (watched threeBuffers) (reuse.take k) =
          some middle → reuse[k]? = some label → watch oneType 0 middle label = some next →
        Returns 0 label next → Drained 0 next := by
  have hruns : (exec (watch oneType 0) (watched threeBuffers) reuse).isSome := by decide
  obtain ⟨final, hexec⟩ := Option.isSome_iff_exists.mp hruns
  exact ⟨final, hexec, (pending_deletes_drained_iff hexec).mpr (by decide)⟩

/-- A dedicated buffer is placed and freed. -/
def freedDedicated : List Label := [.addTrackedobject 0 (dedicatedBuffer 0), .freeBuffer 0]

/-- Then another dedicated buffer is placed: the memory of the first one is still there, with its
delete pending. -/
theorem dedicated_leaves_deletes :
    ¬ ∀ (config : Config) (tid : Nat) (labels : List Label) (label : Label)
        (middle next : Watched),
      exec (watch config tid) (watched threeBuffers) labels = some middle →
      watch config tid middle label = some next → Returns tid label next →
      Drained tid next := by
  intro hall
  have hruns : (exec (watch oneType 0) (watched threeBuffers)
      (freedDedicated ++ [.addTrackedobject 0 (dedicatedBuffer 1)])).isSome := by decide
  obtain ⟨next, hexec⟩ := Option.isSome_iff_exists.mp hruns
  have hleft : (exec (watch oneType 0) (watched threeBuffers)
      (freedDedicated ++ [.addTrackedobject 0 (dedicatedBuffer 1)])).map
        (fun w => (w.old 0, w.state.searches 0)) = some ([0], none) := by decide
  rw [hexec, Option.map_some, Option.some_inj, Prod.mk.injEq] at hleft
  obtain ⟨middle, hfront, hlast⟩ := exec_snoc_eq_some_iff.mp hexec
  have hdrained := hall oneType 0 freedDedicated _ middle next hfront hlast
    ⟨Or.inl rfl, hleft.2⟩
  have hnone := hdrained.1 0
  rw [hleft.1] at hnone
  cases hnone

end PendingDeletes
end Lavatube
