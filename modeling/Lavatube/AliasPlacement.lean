import Lavatube.Suballocator

/-!
# Aliasing at replay

Objects that overlap in a captured memory are placed together at replay, at the offsets
they had; all others get bytes of their own.  The groups are formed with the captured
sizes and filled with the sizes that the replaying device asks for.

* `Sources` — every placed object has its size at replay, and is a member of a group
  exactly if its lookup names one.
* `SharesBytes`, `FaithfulPlacement` — what a placement may share.
* `KeepsApart` — two objects of one group that did not overlap at capture do not
  overlap at their sizes at replay.
* `no_new_aliasing_iff` — exactly then the placement is faithful.
-/

namespace Lavatube
namespace AliasPlacement

open Transition AliasGroups Suballocator

/-- The suballocation is that of a session, or of one of the objects: it has the size of
the object at replay, and is marked as a member if the object is in a group. -/
def Described (all : List TrackedObject) (a : Aliases) (s : Suballocation) : Prop :=
  s.type = .dataGraphPipelineSession ∨ ∃ o ∈ all, o.key = (s.type, s.index) ∧
    s.size = o.reqs.size ∧ (s.aliasMember = true ↔ ∃ group, InGroup a group o)

/-- Where the placed objects and the running searches come from. -/
structure Sources (all : List TrackedObject) (a : Aliases) (st : State) : Prop where
  aliases : st.aliases = a
  bound : ∀ key g, st.history.bound key = some g → g.entry.key = key ∧ Described all a g.entry
  searches : ∀ tid search, st.searches tid = some search →
    Described all a search.request.sub

/-- The objects that a call places are objects of the trace. -/
def Places (all : List TrackedObject) : Label → Prop
  | .addTrackedobject _ data => data ∈ all
  | _ => True

section Steps

variable {all : List TrackedObject} {a : Aliases} {config : Config} {st st' : State}
  {home : HeapRef} {total tid : Nat} {r : Request} {s : Suballocation}

theorem Described.setOffset (h : Described all a s) (offset : Nat) :
    Described all a { s with offset := offset } := h

theorem Sources.bind (hsources : Sources all a st) (hdescribed : Described all a s)
    (hbind : st.bind home total r s = some st') : Sources all a st' := by
  obtain ⟨lookups, -, rfl⟩ := bind_eq_some hbind
  refine { hsources with bound := ?_ }
  intro key g hg
  change Function.update st.history.bound s.key (some ⟨r, home, s⟩) key = some g at hg
  by_cases heq : key = s.key
  · subst heq
    rw [Function.update_self] at hg
    cases hg
    exact ⟨rfl, hdescribed⟩
  · rw [Function.update_of_ne heq] at hg
    exact hsources.bound key g hg

theorem Sources.setSearches (hsources : Sources all a st) {search : Option Search}
    (hsearch : ∀ x, search = some x → Described all a x.request.sub) :
    Sources all a { st with searches := Function.update st.searches tid search } := by
  refine { hsources with searches := ?_ }
  intro tid' x hx
  change Function.update st.searches tid search tid' = some x at hx
  by_cases heq : tid' = tid
  · subst heq
    rw [Function.update_self] at hx
    exact hsearch x hx
  · rw [Function.update_of_ne heq] at hx
    exact hsources.searches tid' x hx

theorem Sources.allocate {dedicated : Bool} (hsources : Sources all a st)
    (hdescribed : Described all a r.sub) (hallocate : allocate config st r dedicated = some st') :
    Sources all a st' := by
  obtain ⟨h, -, hbind⟩ := allocate_eq_some hallocate
  have hpushed : Sources all a (st.pushHeap r.tid h) :=
    ⟨hsources.aliases, hsources.bound, hsources.searches⟩
  exact hpushed.bind hdescribed hbind

theorem Sources.place {dedicated : Bool} (hsources : Sources all a st)
    (hdescribed : Described all a r.sub) (hplace : place config st r dedicated = some st') :
    Sources all a st' := by
  obtain ⟨_, hallocate⟩ | rfl := place_cases hplace
  · exact hsources.allocate hdescribed hallocate
  · apply hsources.setSearches
    intro x hx
    cases hx
    exact hdescribed

theorem Sources.advance (hsources : Sources all a st)
    (hadvance : advance config st tid = some st') (hinv : Inv config st) : Sources all a st' := by
  obtain ⟨search, hsearch, hadvanced⟩ := advance_advanced hadvance
  have hdescribed := hsources.searches tid search hsearch
  obtain ⟨-, hvalid⟩ := hinv.searches tid search hsearch
  have hidle : Sources all a { st with searches := Function.update st.searches tid none } :=
    hsources.setSearches (by simp)
  cases hadvanced with
  | allocated hallocate => exact hidle.allocate hdescribed hallocate
  | @placed h h' placed _ hheap hsuits hplace hbind =>
      simp only [suits, decide_eq_true_eq] at hsuits
      obtain ⟨-, -, -, -, -, -, hroom, -⟩ := hsuits
      obtain ⟨-, -, hplaced, -⟩ := placeIn_spec (hinv.heaps (tid, search.next) h hheap).1
        hvalid.aligned hvalid.positive hroom hplace
      have hset : Sources all a ({ st with
          searches := Function.update st.searches tid none }.setHeap (tid, search.next) h') :=
        ⟨hidle.aliases, hidle.bound, hidle.searches⟩
      rw [hplaced] at hbind
      exact hset.bind (hdescribed.setOffset placed.offset) hbind
  | passed =>
      apply hsources.setSearches
      intro x hx
      cases hx
      exact hdescribed
  | @drained h _ =>
      have hdrained : Sources all a { st.setHeap (tid, search.next) (drain h) with
          history := { st.history with
            freed := Function.update st.history.freed (tid, search.next) [] } } :=
        ⟨hsources.aliases, hsources.bound, hsources.searches⟩
      apply hdrained.setSearches
      intro x hx
      cases hx
      exact hdescribed

/-- Freeing an object forgets at most what was bound. -/
theorem Sources.release (hsources : Sources all a st) (key : Key) (l : Lookup)
    (lookups : Lookups) : Sources all a { release st key l with lookups := lookups } := by
  have hbound : ∀ key' g, Function.update st.history.bound key none key' = some g →
      g.entry.key = key' ∧ Described all a g.entry := by
    intro key' g hg
    by_cases heq : key' = key
    · subst heq
      rw [Function.update_self] at hg
      cases hg
    · rw [Function.update_of_ne heq] at hg
      exact hsources.bound key' g hg
  unfold Suballocator.release
  split
  · exact ⟨hsources.aliases, hsources.bound, hsources.searches⟩
  · simp only
    split
    · exact ⟨hsources.aliases, hbound, hsources.searches⟩
    · split
      · exact ⟨hsources.aliases, hbound, hsources.searches⟩
      · exact ⟨hsources.aliases, hbound, hsources.searches⟩

theorem Sources.freeObject {type : ObjectType} {index : Nat} (hsources : Sources all a st)
    (hfree : freeObject st type index = some st') : Sources all a st' := by
  obtain rfl | ⟨l, -, rfl⟩ := freeObject_cases hfree
  · exact hsources
  · exact hsources.release _ _ _

theorem Sources.freeEntries {session : Nat} {entries : List DatagraphLookup}
    (hsources : Sources all a st) : Sources all a (freeEntries session entries st) := by
  induction entries generalizing st with
  | nil => exact hsources
  | cons e rest ih => exact ih (hsources.release _ _ _)

theorem Sources.bindMember {group offset : Nat} {data : TrackedObject}
    (hsources : Sources all a st) (hdata : data ∈ all)
    (hlookup : a.lookup data.key = some ⟨some group, offset⟩)
    (hbind : bindMember st tid group offset data = some st') : Sources all a st' := by
  obtain ⟨home, h, -, -, hbind⟩ := bindMember_eq_some hbind
  refine hsources.bind (.inr ⟨data, hdata, rfl, rfl, ?_⟩) hbind
  exact ⟨fun _ => ⟨group, offset, hlookup⟩, fun _ => rfl⟩

theorem Sources.addTrackedobject {data : TrackedObject} (hsources : Sources all a st)
    (hdata : data ∈ all) (hadd : addTrackedobject config st tid data = some st') :
    Sources all a st' := by
  have haliases := hsources.aliases
  cases addTrackedobject_added hadd with
  | later hget hbind =>
      exact hsources.bindMember hdata (haliases ▸ Aliases.lookup_of_getAliasLookup hget) hbind
  | @first group _ _ _ _ hget _ _ hreserve hbind =>
      obtain ⟨_, h, -, rfl⟩ := reserveGroup_eq_some hreserve
      have hreserved : Sources all a { st.pushHeap tid h with
          groupHome := Function.update st.groupHome group
            (some (tid, (st.heaps tid).length)) } :=
        ⟨hsources.aliases, hsources.bound, hsources.searches⟩
      exact hreserved.bindMember hdata (haliases ▸ Aliases.lookup_of_getAliasLookup hget) hbind
  | single hget hnone _ hplace =>
      refine hsources.place (.inr ⟨data, hdata, rfl, rfl, ?_⟩) hplace
      refine ⟨fun halias => ?_, fun hgroup => ?_⟩
      · cases halias
      · obtain ⟨group, offset, hlookup⟩ := hgroup
        rw [← haliases, TrackedObject.key, Aliases.lookup_of_getAliasLookup hget] at hlookup
        exact absurd hlookup (hnone group offset)

theorem step_sources {label : Label} (hinv : Inv config st) (hsources : Sources all a st)
    (hplaces : Places all label) (hstep : step config st label = some st') :
    Sources all a st' := by
  cases label with
  | addTrackedobject tid data => exact hsources.addTrackedobject hplaces hstep
  | addDatagraphpipelinesession tid data =>
      obtain ⟨-, _, hplace⟩ := addDatagraphpipelinesession_eq_some hstep
      exact hsources.place (.inl rfl) hplace
  | advance tid => exact hsources.advance hstep hinv
  | freeImage index => exact hsources.freeObject hstep
  | freeBuffer index => exact hsources.freeObject hstep
  | freeTensor index => exact hsources.freeObject hstep
  | freeDatagraphpipelinesession index =>
      obtain rfl | ⟨entries, -, rfl⟩ := freeDatagraphpipelinesession_cases hstep
      · exact hsources
      · exact hsources.freeEntries

end Steps

/-- The object has been placed and not freed since. -/
def Live (st : State) (o : TrackedObject) (g : Grant) : Prop :=
  st.history.bound (.object o.objectType o.index) = some g

/-- The ranges of two placed objects, at their sizes at replay, share a byte. -/
def SharesBytes (o o' : TrackedObject) (g g' : Grant) : Prop :=
  g.home = g'.home ∧ g.entry.offset < g'.entry.offset + o'.reqs.size ∧
    g'.entry.offset < g.entry.offset + o.reqs.size

/-- Live objects share bytes only if they did at capture, and then they are in the same
memory with the same distance. -/
structure FaithfulPlacement (all : List TrackedObject) (st : State) : Prop where
  apart : ∀ o ∈ all, ∀ o' ∈ all, o ≠ o' → ∀ g g', Live st o g → Live st o' g' →
    ¬ CaptureOverlap o o' → ¬ SharesBytes o o' g g'
  together : ∀ o ∈ all, ∀ o' ∈ all, o ≠ o' → ∀ g g', Live st o g → Live st o' g' →
    CaptureOverlap o o' →
      g.home = g'.home ∧ g.entry.offset + o'.offset = g'.entry.offset + o.offset

/-- Of any two live objects that a chain of captured overlap connects, but that did not
overlap themselves, the first one ends in front of the second one at its size at replay. -/
def KeepsApart (all : List TrackedObject) (st : State) : Prop :=
  ∀ o ∈ all, ∀ o' ∈ all, (∃ g, Live st o g) → (∃ g, Live st o' g) → Connected all o o' →
    ¬ CaptureOverlap o o' → o.offset < o'.offset → o.offset + o.reqs.size ≤ o'.offset

theorem CaptureOverlap.symm {o o' : TrackedObject} (h : CaptureOverlap o o') :
    CaptureOverlap o' o :=
  ⟨h.1.symm, h.2.2, h.2.1⟩

theorem Connected.symm {all : List TrackedObject} {o o' : TrackedObject}
    (h : Connected all o o') : Connected all o' o := by
  induction h with
  | refl => exact .refl
  | tail _ hstep ih =>
      exact Relation.ReflTransGen.head ⟨hstep.2.1, hstep.1, CaptureOverlap.symm hstep.2.2⟩ ih

theorem Connected.backingIndex {all : List TrackedObject} {o o' : TrackedObject}
    (h : Connected all o o') : o.backingIndex = o'.backingIndex := by
  induction h with
  | refl => rfl
  | tail _ hstep ih => exact ih.trans hstep.2.2.1

section Placement

variable {device : Nat} {objects : TraceObjects} {a : Aliases} {config : Config} {st : State}
  {o o' : TrackedObject} {g g' : Grant} {formed : List (List TrackedObject)}

/-- What is known of a live object. -/
theorem Sources.live (hsources : Sources (captured device objects) a st)
    (ho : o ∈ captured device objects) (hlive : Live st o g) :
    g.entry.size = o.reqs.size ∧ (g.entry.aliasMember = true ↔ ∃ group, InGroup a group o) := by
  obtain ⟨hkey, hdescribed⟩ := hsources.bound _ g hlive
  unfold Suballocation.key at hkey
  split at hkey
  · cases hkey
  · case _ htype =>
    obtain hsession | ⟨x, hx, hxkey, hsize, hmember⟩ := hdescribed
    · exact absurd hsession htype
    · have heq : x = o := by
        apply key_injective hx ho
        rw [hxkey]
        simp only [Key.object.injEq] at hkey
        exact Prod.ext hkey.1 hkey.2
      exact heq ▸ ⟨hsize, hmember⟩

/-- A live member is in the memory of its group, where its lookup says. -/
theorem member_lookup {all : List TrackedObject} (hinv : Inv config st)
    (hsources : Sources all a st) (hlive : Live st o g) (hmember : g.entry.aliasMember = true) :
    ∃ group, a.lookup o.key = some ⟨some group, g.entry.offset⟩ ∧
      st.groupHome group = some g.home := by
  obtain ⟨type, index, group, hkey, hlookup, hhome⟩ := hinv.member _ g hlive hmember
  simp only [Key.object.injEq] at hkey
  obtain ⟨rfl, rfl⟩ := hkey
  rw [hsources.aliases] at hlookup
  exact ⟨group, hlookup, hhome⟩

/-- The memory of a group holds no object that is not a member. -/
theorem single_home_ne {group : Nat} {home : HeapRef} (hinv : Inv config st)
    (hlive : Live st o g) (hsingle : g.entry.aliasMember = false)
    (hhome : st.groupHome group = some home) : g.home ≠ home := by
  rintro rfl
  obtain ⟨-, h, -, hheap, halias, -⟩ := hinv.homes group g.home hhome
  obtain ⟨-, -, h', hheap', -, -, hsolo, -⟩ := hinv.placed _ g hlive hsingle
  rw [hheap] at hheap'
  cases hheap'
  rw [hsolo] at halias
  cases halias

/-- An object is in one group at most. -/
theorem inGroup_unique {group group' : Nat} (hin : InGroup a group o)
    (hin' : InGroup a group' o) : group = group' := by
  obtain ⟨_, hlookup⟩ := hin
  obtain ⟨_, hlookup'⟩ := hin'
  rw [hlookup] at hlookup'
  cases hlookup'
  rfl

/-- The lookups of a group keep the distance of its members at capture. -/
theorem group_distance {group offset offset' : Nat} (hformed : Formed device objects a formed)
    (ho : o ∈ captured device objects) (ho' : o' ∈ captured device objects)
    (hlookup : a.lookup o.key = some ⟨some group, offset⟩)
    (hlookup' : a.lookup o'.key = some ⟨some group, offset'⟩) :
    offset + o'.offset = offset' + o.offset := by
  obtain ⟨x, -, hx, -, -, -, hoffset⟩ := hformed.lookup_spec ho hlookup
  obtain ⟨x', -, hx', -, -, -, hoffset'⟩ := hformed.lookup_spec ho' hlookup'
  cases hx.symm.trans hx'
  omega

/-- **Live objects of one group** share a memory and keep their distance; all others share
no byte. -/
theorem live_cases (hinv : Inv config st) (hsources : Sources (captured device objects) a st)
    (hformed : Formed device objects a formed) (ho : o ∈ captured device objects)
    (ho' : o' ∈ captured device objects) (hne : o ≠ o') (hlive : Live st o g)
    (hlive' : Live st o' g') :
    (Connected (captured device objects) o o' ∧ g.home = g'.home ∧
      g.entry.offset + o'.offset = g'.entry.offset + o.offset) ∨
    (¬ Connected (captured device objects) o o' ∧ ¬ SharesBytes o o' g g') := by
  obtain ⟨hsize, hmember⟩ := hsources.live ho hlive
  obtain ⟨hsize', hmember'⟩ := hsources.live ho' hlive'
  rw [← hformed.sameGroup_iff_connected ho ho' hne]
  have hkeys : Key.object o.objectType o.index ≠ Key.object o'.objectType o'.index := by
    intro heq
    simp only [Key.object.injEq] at heq
    exact hne (key_injective ho ho' (Prod.ext heq.1 heq.2))
  cases halias : g.entry.aliasMember with
  | true =>
      cases halias' : g'.entry.aliasMember with
      | true =>
          -- two members: of one group, or in the memory of different groups
          obtain ⟨group, hlookup, hhome⟩ := member_lookup hinv hsources hlive halias
          obtain ⟨group', hlookup', hhome'⟩ := member_lookup hinv hsources hlive' halias'
          by_cases hsame : group = group'
          · subst hsame
            exact .inl ⟨⟨group, ⟨_, hlookup⟩, ⟨_, hlookup'⟩⟩,
              Option.some.inj (hhome.symm.trans hhome'),
              group_distance hformed ho ho' hlookup hlookup'⟩
          · refine .inr ⟨?_, fun hshares => ?_⟩
            · rintro ⟨i, hin, hin'⟩
              have hleft := inGroup_unique hin ⟨_, hlookup⟩
              have hright := inGroup_unique hin' ⟨_, hlookup'⟩
              exact hsame (hleft.symm.trans hright)
            · rw [← hshares.1] at hhome'
              exact hsame (hinv.apart group group' g.home hhome hhome')
      | false =>
          -- a member and a single object are never in one memory
          obtain ⟨group, -, hhome⟩ := member_lookup hinv hsources hlive halias
          refine .inr ⟨?_, fun hshares =>
            single_home_ne hinv hlive' halias' hhome hshares.1.symm⟩
          rintro ⟨i, -, hi'⟩
          rw [hmember'.mpr ⟨i, hi'⟩] at halias'
          cases halias'
  | false =>
      have hapart : ¬ SameGroup a o o' := by
        rintro ⟨i, hi, -⟩
        rw [hmember.mpr ⟨i, hi⟩] at halias
        cases halias
      refine .inr ⟨hapart, fun hshares => ?_⟩
      cases halias' : g'.entry.aliasMember with
      | true =>
          obtain ⟨group, -, hhome⟩ := member_lookup hinv hsources hlive' halias'
          exact single_home_ne hinv hlive halias hhome hshares.1
      | false =>
          -- two single objects
          have hdisjoint := hinv.entries_disjoint hlive hlive' halias halias' hkeys hshares.1
          obtain ⟨-, hbefore, hbehind⟩ := hshares
          unfold Suballocation.stop at hdisjoint
          omega

theorem create_sources (all : List TrackedObject) (a : Aliases)
    (threads images buffers tensors sessions : Nat) :
    Sources all a (create threads images buffers tensors sessions a) where
  aliases := rfl
  bound := fun _ _ hg => by cases hg
  searches := fun _ _ hsearch => by cases hsearch

/-- The memory of a group is not empty. -/
theorem group_sized (hformed : Formed device objects a formed)
    (hsized : ∀ o ∈ captured device objects, 0 < o.reqs.size) :
    ∀ x ∈ a.groups, 0 < x.size := by
  intro x hx
  obtain ⟨i, hi⟩ := List.getElem?_of_mem hx
  have hlt := (List.getElem?_eq_some_iff.mp hi).1
  rw [hformed.grouped.length] at hlt
  have hmembers := List.getElem?_eq_getElem hlt
  have hdescribes := hformed.grouped.describes i x _ hi hmembers
  obtain ⟨o, ho, -⟩ := hdescribes.least.1
  have hfits := hdescribes.fits o ho
  have hpos := hsized o (hformed.mem_captured (List.mem_of_getElem? hmembers) ho)
  omega

end Placement

/-- **No new aliasing.**  Take any images, buffers and tensors whose alias groups can be
prepared, and any run of placements and frees of them by any number of threads.  In the
state it reaches, live objects share bytes exactly as at capture if and only if no two
live objects of one group run into each other at their sizes at replay. -/
theorem no_new_aliasing_iff {device : Nat} {objects : TraceObjects} {a : Aliases}
    (hprepare : prepareAliasGroups device objects = .ok a) {config : Config}
    {threads sessions : Nat} {labels : List Label}
    (hsized : ∀ o ∈ captured device objects, 0 < o.reqs.size)
    (hvalid : ∀ label ∈ labels, label.Valid ∧ Places (captured device objects) label) {st : State}
    (hrun : exec (step config) (create threads objects.images.length objects.buffers.length
      objects.tensors.length sessions a) labels = some st) :
    FaithfulPlacement (captured device objects) st ↔
      KeepsApart (captured device objects) st := by
  obtain ⟨formed, hformed⟩ := prepare_spec hprepare
  have hinv := run_inv (group_sized hformed hsized) (fun label hlabel => (hvalid label hlabel).1)
    hrun
  -- both invariants of the run
  have hsources : Sources (captured device objects) a st := by
    have halong : Along (step config) (fun _ label => label.Valid ∧
        Places (captured device objects) label) (create threads objects.images.length
          objects.buffers.length objects.tensors.length sessions a) labels :=
      along_of_forall hvalid
    have hkeep : ∀ st label next, Inv config st ∧ Sources (captured device objects) a st →
        label.Valid ∧ Places (captured device objects) label →
        step config st label = some next →
        Inv config next ∧ Sources (captured device objects) a next := by
      rintro st label next ⟨hinv, hsources⟩ ⟨hlabel, hplaces⟩ hstep
      exact ⟨step_inv hinv hlabel hstep, step_sources hinv hsources hplaces hstep⟩
    have hstart := And.intro
      (create_inv config threads objects.images.length objects.buffers.length
        objects.tensors.length sessions (group_sized hformed hsized))
      (create_sources (captured device objects) a threads objects.images.length
        objects.buffers.length objects.tensors.length sessions)
    have hboth := exec_invariant hkeep hstart halong hrun
    exact hboth.2
  constructor
  · rintro hfaithful o ho o' ho' ⟨g, hlive⟩ ⟨g', hlive'⟩ hconnected hapart hlt
    have hne : o ≠ o' := by
      rintro rfl
      omega
    obtain ⟨-, hhome, hoffset⟩ | ⟨hnot, -⟩ :=
      live_cases hinv hsources hformed ho ho' hne hlive hlive'
    · -- objects of one group keep their distance: the first has to end in front of the second
      have hshares := hfaithful.apart o ho o' ho' hne g g' hlive hlive' hapart
      by_contra hlong
      exact hshares ⟨hhome, by omega, by omega⟩
    · exact absurd hconnected hnot
  · intro hkeeps
    constructor
    · intro o ho o' ho' hne g g' hlive hlive' hapart hshares
      obtain ⟨hconnected, -, hoffset⟩ | ⟨-, hnot⟩ :=
        live_cases hinv hsources hformed ho ho' hne hlive hlive'
      · obtain ⟨-, hbefore, hbehind⟩ := hshares
        rcases lt_trichotomy o.offset o'.offset with hlt | heq | hgt
        · have := hkeeps o ho o' ho' ⟨g, hlive⟩ ⟨g', hlive'⟩ hconnected hapart hlt
          omega
        · -- two ranges with the same start overlap
          have hpos := reqSize_pos_of_mem ho
          have hpos' := reqSize_pos_of_mem ho'
          unfold TrackedObject.captureEnd at hpos hpos'
          exact hapart ⟨Connected.backingIndex hconnected, by omega, by omega⟩
        · have := hkeeps o' ho' o ho ⟨g', hlive'⟩ ⟨g, hlive⟩ (Connected.symm hconnected)
            (fun hoverlap => hapart (CaptureOverlap.symm hoverlap)) hgt
          omega
      · exact hnot hshares
    · intro o ho o' ho' hne g g' hlive hlive' hoverlap
      obtain ⟨-, hrest⟩ | ⟨hnot, -⟩ :=
        live_cases hinv hsources hformed ho ho' hne hlive hlive'
      · exact hrest
      · exact absurd (.single ⟨ho, ho', hoverlap⟩) hnot

/-- Three buffers, each overlapping the next one; the first one needs `size` bytes at
replay. -/
def chained (size : Nat) : TraceObjects where
  images := []
  buffers :=
    [{ objectType := .buffer, index := 0, backingIndex := 0, offset := 0, reqSize := 16
       reqs := { size := size, alignment := 8, memoryTypeBits := 1 } },
     { objectType := .buffer, index := 1, backingIndex := 0, offset := 8, reqSize := 16
       reqs := { size := 16, alignment := 8, memoryTypeBits := 1 } },
     { objectType := .buffer, index := 2, backingIndex := 0, offset := 16, reqSize := 16
       reqs := { size := 16, alignment := 8, memoryTypeBits := 1 } }]
  tensors := []
  image_type := type_of_none .image
  buffer_type := by simp
  tensor_type := type_of_none .tensor
  image_nodup := nodup_of_none
  buffer_nodup := by simp
  tensor_nodup := nodup_of_none

/-- The first and the last buffer are placed. -/
def placeEnds (size : Nat) : List Label :=
  (captured 0 (chained size)).filterMap fun o =>
    if o.index = 1 then none else some (.addTrackedobject 0 o)

/-- The calls of `placeEnds` place buffers of the trace. -/
theorem placeEnds_valid {size : Nat} (hpos : 0 < size) :
    ∀ label ∈ placeEnds size, label.Valid ∧ Places (captured 0 (chained size)) label := by
  intro label hlabel
  obtain ⟨o, ho, hadd⟩ := List.mem_filterMap.mp hlabel
  split at hadd
  · cases hadd
  · cases hadd
    refine ⟨?_, ho⟩
    have hbuffer : o ∈ (chained size).buffers := by
      have hmem := (mem_captured_iff.mp ho).1
      simpa [chained] using hmem
    simp only [chained, List.mem_cons, List.not_mem_nil, or_false] at hbuffer
    obtain rfl | rfl | rfl := hbuffer
    · exact ⟨hpos, 3, rfl⟩
    · exact ⟨by decide, 3, rfl⟩
    · exact ⟨by decide, 3, rfl⟩

/-- At the captured sizes the ends of the chain stay apart. -/
theorem no_new_aliasing_iff_chained :
    ∃ a st, prepareAliasGroups 0 (chained 16) = .ok a ∧
      exec (step oneType) (create 1 0 3 0 0 a) (placeEnds 16) = some st ∧
      FaithfulPlacement (captured 0 (chained 16)) st := by
  have hprepare : ∃ a, prepareAliasGroups 0 (chained 16) = .ok a := ⟨_, rfl⟩
  obtain ⟨a, ha⟩ := hprepare
  have hrun : ∃ st, exec (step oneType) (create 1 0 3 0 0 a) (placeEnds 16) = some st := by
    cases ha
    exact ⟨_, rfl⟩
  obtain ⟨st, hst⟩ := hrun
  refine ⟨a, st, ha, hst, (no_new_aliasing_iff ha (by decide) (placeEnds_valid (by decide))
    hst).mpr ?_⟩
  have hcheck : ∀ o ∈ captured 0 (chained 16), ∀ o' ∈ captured 0 (chained 16),
      ¬ CaptureOverlap o o' → o.offset < o'.offset → o.offset + o.reqs.size ≤ o'.offset := by
    unfold CaptureOverlap
    decide
  intro o ho o' ho' _ _ _ hapart hlt
  exact hcheck o ho o' ho' hapart hlt

/-- Where a buffer is. -/
def placeOf (st : State) (index : Nat) : Option (HeapRef × Nat) :=
  (st.history.bound (.object .buffer index)).map fun g => (g.home, g.entry.offset)

/-- With eight bytes more than at capture the first buffer runs into the last one, which
it did not overlap at capture. -/
theorem ends_of_chain_share_bytes :
    ∃ a st, prepareAliasGroups 0 (chained 24) = .ok a ∧
      exec (step oneType) (create 1 0 3 0 0 a) (placeEnds 24) = some st ∧
      ¬ FaithfulPlacement (captured 0 (chained 24)) st := by
  have hprepare : ∃ a, prepareAliasGroups 0 (chained 24) = .ok a := ⟨_, rfl⟩
  obtain ⟨a, ha⟩ := hprepare
  have hplaces : (exec (step oneType) (create 1 0 3 0 0 a) (placeEnds 24)).map
      (fun st => (placeOf st 0, placeOf st 2)) = some (some ((0, 0), 0), some ((0, 0), 16)) := by
    cases ha
    rfl
  obtain ⟨st, hst, hboth⟩ := Option.map_eq_some_iff.mp hplaces
  simp only [Prod.mk.injEq, placeOf, Option.map_eq_some_iff] at hboth
  obtain ⟨⟨g, hg, hhome, hoffset⟩, ⟨g', hg', hhome', hoffset'⟩⟩ := hboth
  refine ⟨a, st, ha, hst, fun hfaithful => ?_⟩
  apply hfaithful.apart (chained 24).buffers[0] (by decide) (chained 24).buffers[2] (by decide)
    (by decide) g g' hg hg'
  · unfold CaptureOverlap
    decide
  · refine ⟨hhome.trans hhome'.symm, ?_, ?_⟩
    · rw [hoffset, hoffset']
      decide
    · rw [hoffset, hoffset']
      decide

end AliasPlacement
end Lavatube
