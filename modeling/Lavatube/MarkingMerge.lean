import Lavatube.HostWriteRegions
import Lavatube.Lib.KeyedList
import Lavatube.UpdateRewrite

/-!
# Merging of markings

The markings that a run of `lava-tool` finds are kept in a queue, one entry for each update packet
or call and each object in it.  Markings for an entry that is there already are merged into it.

* `mergeMarkedOffsets` — the union of two lists of markings.
* `mergeRewriteMarkings` — one list into the queue.
* `mergeDiscoveredMarkings` — markings that were found one by one are sorted into buckets first.
* `Merged` — the queue holds the union of all lists under each key.
* `markings_merged` — it does after every run in which the 32-bit numbers of markings hold, and the
  order and the repetition of the calls make no difference.
-/

namespace Lavatube
namespace MarkingMerge

open HostWriteRegions UpdatePackets KeyedList Transition
open UpdateRewrite (entryKey_lt entrySorting)

/-! ### Lists of markings -/

/-- Markings without any: there are no arrays. -/
def noMarkings : MarkedOffsetsARM := cloneMarkedOffsets (.ofEntries [] (Nat.two_pow_pos 32))

/-- What a copy reads of markings; `none` is a missing array. -/
def readEntries (markings : MarkedOffsetsARM) : Option (List Entry) :=
  if markings.count = 0 then some [] else markings.entries

/-- `normalize_marked_offsets` of a list that was allocated for these markings. -/
def normalizeEntries (sorting : Sorting Entry.Before) (entries : List Entry)
    (hsmall : entries.length < 2 ^ 32) : Option MarkedOffsetsARM :=
  normalizeMarkedOffsets sorting (.ofEntries entries hsmall)

/-- `merge_marked_offsets` of two that are there.  The sum of the numbers has 32 bits; `none` is a
failed assertion, or a copy that goes beyond the arrays that were allocated for the sum. -/
def mergeMarkedOffsets (sorting : Sorting Entry.Before) (a b : MarkedOffsetsARM) :
    Option MarkedOffsetsARM :=
  -- the sum has 32 bits, so it may be zero with markings on both sides
  if a.count + b.count = 0 then some noMarkings
  else
    (readEntries a).bind fun first =>
      (readEntries b).bind fun second =>
        if hsmall : (first ++ second).length < 2 ^ 32 then
          normalizeEntries sorting (first ++ second) hsmall
        else none

/-! ### The queue -/

/-- `address_rewrite`; its markings are there. -/
structure AddressRewrite where
  markings : MarkedOffsetsARM
  source : ChangeSource
  objectType : UInt32
  objectIndex : UInt32
  stageIndex : UInt32

/-- `same_rewrite_target`. -/
def sameRewriteTarget (entry : AddressRewrite) (objectType objectIndex stageIndex : UInt32) :
    Bool :=
  entry.objectType = objectType ∧ entry.objectIndex = objectIndex ∧ entry.stageIndex = stageIndex

/-- What becomes of an entry that is there. -/
def mergeInto (sorting : Sorting Entry.Before) (markings : MarkedOffsetsARM)
    (entry : AddressRewrite) : Option AddressRewrite :=
  (mergeMarkedOffsets sorting entry.markings markings).map fun merged =>
    { entry with markings := merged }

/-- A new entry. -/
def newEntry (sorting : Sorting Entry.Before) (source : ChangeSource) (markings : MarkedOffsetsARM)
    (objectType objectIndex stageIndex : UInt32) : Option AddressRewrite :=
  (normalizeMarkedOffsets sorting (cloneMarkedOffsets markings)).map fun normalized =>
    ⟨normalized, source, objectType, objectIndex, stageIndex⟩

/-- `merge_rewrite_markings`. -/
def mergeRewriteMarkings (sorting : Sorting Entry.Before) (queue : List AddressRewrite)
    (source : ChangeSource) (markings : MarkedOffsetsARM)
    (objectType objectIndex stageIndex : UInt32) : Option (List AddressRewrite) :=
  upsert
    (fun entry => sameSource entry.source source &&
      sameRewriteTarget entry objectType objectIndex stageIndex)
    (mergeInto sorting markings)
    (newEntry sorting source markings objectType objectIndex stageIndex)
    queue

/-! ### Discovered markings -/

section

variable {tracker : MemoryFlagTracker}

/-- `trackedbuffer`, as far as it is used. -/
structure TrackedBuffer (tracker : MemoryFlagTracker) where
  objectType : UInt32
  index : UInt32
  source : Regions tracker

/-- `discovered_buffer_marking`. -/
structure DiscoveredBufferMarking (tracker : MemoryFlagTracker) where
  bufferData : Option (TrackedBuffer tracker)
  outputObjectType : UInt32
  outputObjectIndex : UInt32
  outputStageIndex : UInt32
  offset : UInt64
  size : UInt64
  type : UInt32
  subtype : UInt64
  hasExplicitSource : Bool
  source : ChangeSource

/-- `CONTAINER_NULL_VALUE`. -/
def nullValue : UInt32 := 0xfffffffe

/-- The source of a marking: its own one, or `try_get_source`, whose size has 32 bits.  The outer
`none` is a failed assertion, and the inner one means that no packet covers it. -/
def DiscoveredBufferMarking.findSource (marking : DiscoveredBufferMarking tracker) :
    Option (Option ChangeSource) :=
  if marking.size = 0 then none
  else if marking.hasExplicitSource then some (some marking.source)
  else
    marking.bufferData.bind fun buffer =>
      (tryGetReference buffer.source marking.offset (UInt32.ofNat marking.size.toNat)).map
        (Option.map HostWriteReference.source)

/-- The type of the object in the output; `VK_OBJECT_TYPE_UNKNOWN` is zero. -/
def DiscoveredBufferMarking.objectType (marking : DiscoveredBufferMarking tracker) : UInt32 :=
  if marking.hasExplicitSource ∨ marking.outputObjectType ≠ 0 then marking.outputObjectType
  else (marking.bufferData.map TrackedBuffer.objectType).getD 0

/-- Its index. -/
def DiscoveredBufferMarking.objectIndex (marking : DiscoveredBufferMarking tracker) : UInt32 :=
  if marking.hasExplicitSource ∨ marking.outputObjectType ≠ 0 then marking.outputObjectIndex
  else (marking.bufferData.map TrackedBuffer.index).getD nullValue

/-- The marking itself. -/
def DiscoveredBufferMarking.entry (marking : DiscoveredBufferMarking tracker) : Entry :=
  ⟨marking.offset, marking.type, marking.subtype⟩

/-- `discovered_output_markings_bucket`; of its markings, only the entries are used. -/
structure OutputMarkingsBucket where
  source : ChangeSource
  objectType : UInt32
  objectIndex : UInt32
  stageIndex : UInt32
  entries : List Entry

/-- One marking goes into its bucket. -/
def addToBucket (marking : DiscoveredBufferMarking tracker) (source : ChangeSource)
    (buckets : List OutputMarkingsBucket) : Option (List OutputMarkingsBucket) :=
  upsert
    (fun bucket => sameSource bucket.source source && bucket.objectType = marking.objectType &&
      bucket.objectIndex = marking.objectIndex && bucket.stageIndex = marking.outputStageIndex)
    (fun bucket => some { bucket with entries := bucket.entries ++ [marking.entry] })
    (some ⟨source, marking.objectType, marking.objectIndex, marking.outputStageIndex,
      [marking.entry]⟩)
    buckets

/-- One round of the first loop of `merge_discovered_markings`. -/
def collectMarking (buckets : List OutputMarkingsBucket)
    (marking : DiscoveredBufferMarking tracker) : Option (List OutputMarkingsBucket) :=
  match marking.findSource with
  | none => none
  | some none => some buckets
  | some (some source) => addToBucket marking source buckets

/-- `build_marked_offsets`; the number of markings is cast to 32 bits. -/
def buildMarkedOffsets (sorting : Sorting Entry.Before) (entries : List Entry) :
    Option MarkedOffsetsARM :=
  if entries = [] then none
  else
    -- as many as the count says
    normalizeEntries sorting (entries.take (entries.length % 2 ^ 32))
      ((List.length_take_le _ _).trans_lt (Nat.mod_lt _ (by norm_num)))

/-- One round of the second loop. -/
def mergeBucket (sorting : Sorting Entry.Before) (queue : List AddressRewrite)
    (bucket : OutputMarkingsBucket) : Option (List AddressRewrite) :=
  (buildMarkedOffsets sorting bucket.entries).bind fun markings =>
    mergeRewriteMarkings sorting queue bucket.source markings bucket.objectType bucket.objectIndex
      bucket.stageIndex

/-- `merge_discovered_markings`. -/
def mergeDiscoveredMarkings (sorting : Sorting Entry.Before) (queue : List AddressRewrite)
    (discovered : List (DiscoveredBufferMarking tracker)) : Option (List AddressRewrite) :=
  (exec collectMarking [] discovered).bind fun buckets => exec (mergeBucket sorting) queue buckets

/-- A call on the queue.  Where an overload has fewer parameters, the object is unknown and the
indices are `nullValue`. -/
inductive Call (tracker : MemoryFlagTracker) where
  | rewrite (source : ChangeSource) (markings : MarkedOffsetsARM)
      (objectType objectIndex stageIndex : UInt32)
  | discovered (markings : List (DiscoveredBufferMarking tracker))

/-- One call. -/
def step (sorting : Sorting Entry.Before) (queue : List AddressRewrite) :
    Call tracker → Option (List AddressRewrite)
  | .rewrite source markings objectType objectIndex stageIndex =>
      mergeRewriteMarkings sorting queue source markings objectType objectIndex stageIndex
  | .discovered markings => mergeDiscoveredMarkings sorting queue markings

end

/-! ## The order of markings -/

theorem not_before_of_before {a b : Entry} (hbefore : a.Before b) : ¬ b.Before a :=
  fun h => absurd (entryKey_lt h) (entryKey_lt hbefore).asymm

theorem eq_or_before {a b : Entry} (hnot : ¬ b.Before a) : a = b ∨ a.Before b := by
  obtain ⟨offset, type, subType⟩ := a
  obtain ⟨offset', type', subType'⟩ := b
  simp only [Entry.Before, Entry.mk.injEq, ← UInt64.toNat_inj, ← UInt32.toNat_inj,
    UInt64.lt_iff_toNat_lt, UInt32.lt_iff_toNat_lt, ne_eq, ite_not] at hnot ⊢
  split_ifs at hnot ⊢ <;> omega

theorem before_trans {a b c : Entry} (hab : a.Before b) (hbc : b.Before c) : a.Before c := by
  have hlt := (entryKey_lt hab).trans (entryKey_lt hbc)
  rcases eq_or_before (a := a) (b := c) fun h => absurd (entryKey_lt h) hlt.asymm with rfl | h
  · exact absurd hlt (lt_irrefl _)
  · exact h

theorem nodup_of_sorted {l : List Entry} (hsorted : l.Pairwise Entry.Before) : l.Nodup := by
  refine hsorted.imp ?_
  rintro a b hbefore rfl
  exact not_before_of_before hbefore hbefore

/-- Lists in this order with the same markings are the same. -/
theorem eq_of_mem_iff {l l' : List Entry} (hsorted : l.Pairwise Entry.Before)
    (hsorted' : l'.Pairwise Entry.Before) (hmem : ∀ x, x ∈ l ↔ x ∈ l') : l = l' := by
  have hperm := (List.perm_ext_iff_of_nodup (nodup_of_sorted hsorted)
    (nodup_of_sorted hsorted')).mpr hmem
  exact hperm.eq_of_pairwise
    (fun a b _ _ hab hba => absurd hba (not_before_of_before hab)) hsorted hsorted'

/-- What is left of sorted markings is strictly sorted, and nothing is lost.  The induction is on
the markings behind the one that was kept last. -/
theorem dropRepeats_spec {last : Entry} {l : List Entry}
    (hsorted : (last :: l).Pairwise fun a b => ¬ b.Before a) :
    (last :: dropRepeats last l).Pairwise Entry.Before ∧
      ∀ x, x ∈ last :: dropRepeats last l ↔ x ∈ last :: l := by
  induction l generalizing last with
  | nil => exact ⟨List.pairwise_singleton _ _, fun _ => Iff.rfl⟩
  | cons entry rest ih =>
      obtain ⟨hlast, hrest⟩ := List.pairwise_cons.mp hsorted
      unfold dropRepeats
      by_cases hsame : entry = last
      · subst hsame
        rw [if_pos rfl]
        obtain ⟨hstrict, hmem⟩ := ih hrest
        exact ⟨hstrict, fun x => by rw [hmem]; simp⟩
      · rw [if_neg hsame]
        obtain ⟨hstrict, hmem⟩ := ih hrest
        have hfirst : last.Before entry :=
          (eq_or_before (hlast entry List.mem_cons_self)).resolve_left fun h => hsame h.symm
        refine ⟨List.pairwise_cons.mpr ⟨fun y hy => ?_, hstrict⟩, fun x => ?_⟩
        · rcases List.mem_cons.mp hy with rfl | hy
          · exact hfirst
          · exact before_trans hfirst ((List.pairwise_cons.mp hstrict).1 y hy)
        · rw [List.mem_cons, hmem, List.mem_cons (a := x) (b := last)]

theorem unique_spec {l : List Entry} (hsorted : l.Pairwise fun a b => ¬ b.Before a) :
    (unique l).Pairwise Entry.Before ∧ ∀ x, x ∈ unique l ↔ x ∈ l := by
  cases l with
  | nil => exact ⟨List.Pairwise.nil, fun _ => Iff.rfl⟩
  | cons entry rest => exact dropRepeats_spec hsorted

section

variable {sorting : Sorting Entry.Before} {l : List Entry} {x : Entry}

theorem sorted_unique : (unique (sorting.sort l)).Pairwise Entry.Before :=
  (unique_spec (sorting.sorted l)).1

theorem mem_unique : x ∈ unique (sorting.sort l) ↔ x ∈ l :=
  ((unique_spec (sorting.sorted l)).2 x).trans sorting.mem_sort

theorem length_unique : (unique (sorting.sort l)).length ≤ l.length :=
  (length_unique_le _).trans (sorting.perm l).length_eq.le

/-- The number of different markings. -/
theorem length_unique_eq : (unique (sorting.sort l)).length = l.dedup.length := by
  have hnodup : (unique (sorting.sort l)).Nodup := nodup_of_sorted sorted_unique
  refine ((List.perm_ext_iff_of_nodup hnodup l.nodup_dedup).mpr fun x => ?_).length_eq
  rw [mem_unique, List.mem_dedup]

end

/-! ## Merging two lists -/

/-- These markings are this list, in arrays of their own. -/
def IsList (markings : MarkedOffsetsARM) (l : List Entry) : Prop :=
  ∃ hsmall : l.length < 2 ^ 32, markings = cloneMarkedOffsets (.ofEntries l hsmall)

section

variable (sorting : Sorting Entry.Before) {markings other : MarkedOffsetsARM}
variable {l l' : List Entry}

theorem count_ofEntries (hsmall : l.length < 2 ^ 32) :
    (MarkedOffsetsARM.ofEntries l hsmall).count.toNat = l.length :=
  UInt32.toNat_ofNat_of_lt' hsmall

theorem clone_ofEntries (hsmall : l.length < 2 ^ 32) (hne : l ≠ []) :
    cloneMarkedOffsets (.ofEntries l hsmall) = .ofEntries l hsmall := by
  refine if_neg fun hzero => hne ?_
  rw [← List.length_eq_zero_iff, ← count_ofEntries hsmall, hzero]
  rfl

theorem count_clone : (cloneMarkedOffsets markings).count = markings.count := by
  unfold cloneMarkedOffsets
  split_ifs
  · rfl
  · rfl

theorem IsList.count (hlist : IsList markings l) : markings.count.toNat = l.length := by
  obtain ⟨hsmall, rfl⟩ := hlist
  rw [count_clone, count_ofEntries]

theorem readEntries_ofEntries (hsmall : l.length < 2 ^ 32) :
    readEntries (.ofEntries l hsmall) = some l := by
  unfold readEntries
  split_ifs with hzero
  · have hcount := count_ofEntries hsmall
    rw [hzero] at hcount
    rw [List.length_eq_zero_iff.mp hcount.symm]
  · exact entries_ofEntries l hsmall

theorem IsList.readEntries (hlist : IsList markings l) : readEntries markings = some l := by
  obtain ⟨hsmall, rfl⟩ := hlist
  by_cases hne : l = []
  · subst hne
    rfl
  · rw [clone_ofEntries hsmall hne, readEntries_ofEntries]

/-- Markings with all arrays are those that are made of the list. -/
theorem eq_ofEntries (hentries : markings.entries = some l) :
    ∃ hsmall : l.length < 2 ^ 32, markings = .ofEntries l hsmall := by
  have hlength := MarkedOffsetsARM.length_entries hentries
  have hsmall : l.length < 2 ^ 32 := hlength ▸ markings.count.toNat_lt
  refine ⟨hsmall, ?_⟩
  unfold MarkedOffsetsARM.entries at hentries
  split at hentries
  · next offsets types subTypes hoffsets htypes hsubTypes =>
      have hoffsetsLength := markings.offsetsLength offsets hoffsets
      have htypesLength := markings.typesLength types htypes
      have hsubTypesLength := markings.subTypesLength subTypes hsubTypes
      have hinner : (types.zip subTypes).length = markings.count.toNat := by
        rw [List.length_zip, htypesLength, hsubTypesLength, Nat.min_self]
      cases hentries
      -- the count and the three arrays, one after the other
      ext1
      · rw [← UInt32.toNat_inj, count_ofEntries, hlength]
      · show _ = some (((offsets.zip (types.zip subTypes)).map _).map Entry.markingType)
        rw [htypes, List.map_map]
        show _ = some ((offsets.zip (types.zip subTypes)).map (Prod.fst ∘ Prod.snd))
        rw [← List.map_map, List.map_snd_zip (by omega), List.map_fst_zip (by omega)]
      · show _ = some (((offsets.zip (types.zip subTypes)).map _).map Entry.subType)
        rw [hsubTypes, List.map_map]
        show _ = some ((offsets.zip (types.zip subTypes)).map (Prod.snd ∘ Prod.snd))
        rw [← List.map_map, List.map_snd_zip (by omega), List.map_snd_zip (by omega)]
      · show _ = some (((offsets.zip (types.zip subTypes)).map _).map Entry.offset)
        rw [hoffsets, List.map_map]
        show _ = some ((offsets.zip (types.zip subTypes)).map Prod.fst)
        rw [List.map_fst_zip (by omega)]
  · cases hentries

/-- What a copy reads is what a clone has. -/
theorem clone_of_readEntries (hread : readEntries markings = some l) :
    IsList (cloneMarkedOffsets markings) l := by
  unfold MarkingMerge.readEntries at hread
  split_ifs at hread with hzero
  · cases hread
    refine ⟨by norm_num, ?_⟩
    rw [cloneMarkedOffsets, if_pos hzero]
    ext1
    · exact hzero
    · rfl
    · rfl
    · rfl
  · obtain ⟨hsmall, rfl⟩ := eq_ofEntries hread
    exact ⟨hsmall, rfl⟩

/-- Markings in arrays of their own are normalised. -/
theorem normalize_isList (hlist : IsList markings l) :
    ∃ normalized, normalizeMarkedOffsets sorting markings = some normalized ∧
      IsList normalized (unique (sorting.sort l)) := by
  have hcount := hlist.count
  unfold normalizeMarkedOffsets
  by_cases hfew : markings.count ≤ 1
  -- up to one entry there is nothing to sort
  · rw [if_pos hfew]
    refine ⟨markings, rfl, ?_⟩
    have hle : l.length ≤ 1 := hcount ▸ UInt32.le_iff_toNat_le.mp hfew
    have hsame : unique (sorting.sort l) = l := by
      match l, hle with
      | [], _ => rw [(sorting.sort_eq_nil).mpr rfl]; rfl
      | [entry], _ => rw [List.perm_singleton.mp (sorting.perm [entry])]; rfl
    rwa [hsame]
  · rw [if_neg hfew]
    have hmany : 1 < l.length := hcount ▸ UInt32.lt_iff_toNat_lt.mp (UInt32.not_le.mp hfew)
    have hread := hlist.readEntries
    have hzero : markings.count ≠ 0 := by
      intro hzero
      rw [hzero] at hfew
      exact hfew (by decide)
    rw [MarkingMerge.readEntries, if_neg hzero] at hread
    have hsmall : (unique (sorting.sort l)).length < 2 ^ 32 := by
      have hle : (unique (sorting.sort l)).length ≤ l.length := length_unique
      have hlt := markings.count.toNat_lt
      omega
    have hne : unique (sorting.sort l) ≠ [] := by
      intro hnil
      have hmem : ∀ x, x ∉ l := fun x hx => by
        have hleft : x ∈ unique (sorting.sort l) := mem_unique.mpr hx
        rw [hnil] at hleft
        exact List.not_mem_nil hleft
      rw [List.eq_nil_iff_forall_not_mem.mpr hmem] at hmany
      exact absurd hmany (by norm_num)
    split
    · next hnone => exact absurd (hread.symm.trans hnone) (by simp)
    · next entries hentries =>
        cases hread.symm.trans hentries
        exact ⟨_, rfl, hsmall, (clone_ofEntries hsmall hne).symm⟩

/-- **Two lists** are merged if the sum of their numbers holds. -/
theorem mergeMarkedOffsets_spec (hlist : IsList markings l) (hread : readEntries other = some l')
    (hfits : markings.count.toNat + other.count.toNat < 2 ^ 32) :
    ∃ merged, mergeMarkedOffsets sorting markings other = some merged ∧
      IsList merged (unique (sorting.sort (l ++ l'))) := by
  have hcount := hlist.count
  have hcount' : other.count.toNat = l'.length := by
    rw [← count_clone, (clone_of_readEntries hread).count]
  have hsmall : (l ++ l').length < 2 ^ 32 := by
    rw [List.length_append]
    omega
  have hsum : (markings.count + other.count).toNat = (l ++ l').length := by
    rw [UInt32.toNat_add, Nat.mod_eq_of_lt hfits, List.length_append, hcount, hcount']
  unfold mergeMarkedOffsets
  by_cases hzero : markings.count + other.count = 0
  · have hnil : l ++ l' = [] := List.length_eq_zero_iff.mp (by rw [← hsum, hzero]; rfl)
    rw [if_pos hzero, hnil, (sorting.sort_eq_nil).mpr rfl]
    exact ⟨noMarkings, rfl, by norm_num [unique], rfl⟩
  · have hne : l ++ l' ≠ [] := by
      intro hnil
      apply hzero
      rw [← UInt32.toNat_inj, hsum, hnil]
      rfl
    rw [if_neg hzero, hlist.readEntries, hread, Option.bind_some, Option.bind_some, dif_pos hsmall]
    exact normalize_isList sorting ⟨hsmall, (clone_ofEntries hsmall hne).symm⟩

end

/-! ## The union under each key -/

/-- What the entries of the queue are told apart by. -/
structure Key where
  packet : UInt32
  frame : UInt32
  thread : UInt8
  callId : UInt16
  objectType : UInt32
  objectIndex : UInt32
  stageIndex : UInt32
deriving DecidableEq, Repr

/-- The key of an object at a source; the packet type is not part of it. -/
def keyOf (source : ChangeSource) (objectType objectIndex stageIndex : UInt32) : Key :=
  ⟨source.packet, source.frame, source.thread, source.callId, objectType, objectIndex, stageIndex⟩

def AddressRewrite.key (entry : AddressRewrite) : Key :=
  keyOf entry.source entry.objectType entry.objectIndex entry.stageIndex

def OutputMarkingsBucket.key (bucket : OutputMarkingsBucket) : Key :=
  keyOf bucket.source bucket.objectType bucket.objectIndex bucket.stageIndex

/-- Markings that are handed over under a key. -/
structure Part where
  key : Key
  entries : List Entry

/-- The keys under which something is handed over, and the union under each of them. -/
def Handed (parts : List Part) (k : Key) : Prop := ∃ part ∈ parts, part.key = k

def InUnion (parts : List Part) (k : Key) (x : Entry) : Prop :=
  ∃ part ∈ parts, part.key = k ∧ x ∈ part.entries

/-- **The queue holds the union of the parts**: one entry for each key, whose markings are strictly
sorted and all those that were handed over under the key. -/
structure Merged (parts : List Part) (queue : List AddressRewrite) : Prop where
  nodup : (queue.map AddressRewrite.key).Nodup
  keys : ∀ k, (∃ entry ∈ queue, entry.key = k) ↔ Handed parts k
  markings : ∀ entry ∈ queue, ∃ l, IsList entry.markings l ∧ l.Pairwise Entry.Before ∧
    ∀ x, x ∈ l ↔ InUnion parts entry.key x

/-- The number of markings that are held under a key. -/
def held (queue : List AddressRewrite) (k : Key) : Nat :=
  ((get? AddressRewrite.key k queue).map fun entry => entry.markings.count.toNat).getD 0

section

variable {parts parts' : List Part} {queue queue' : List AddressRewrite} {k : Key} {x : Entry}

theorem handed_append : Handed (parts ++ parts') k ↔ Handed parts k ∨ Handed parts' k := by
  simp only [Handed, List.mem_append, or_and_right, exists_or]

theorem inUnion_append :
    InUnion (parts ++ parts') k x ↔ InUnion parts k x ∨ InUnion parts' k x := by
  simp only [InUnion, List.mem_append, or_and_right, exists_or]

theorem handed_singleton {part : Part} : Handed [part] k ↔ part.key = k := by
  simp [Handed]

theorem inUnion_singleton {part : Part} :
    InUnion [part] k x ↔ part.key = k ∧ x ∈ part.entries := by
  simp [InUnion]

theorem InUnion.handed (hunion : InUnion parts k x) : Handed parts k := by
  obtain ⟨part, hpart, hkey, -⟩ := hunion
  exact ⟨part, hpart, hkey⟩

theorem merged_nil : Merged [] [] where
  nodup := List.nodup_nil
  keys := fun k => by simp [Handed]
  markings := fun entry hentry => absurd hentry List.not_mem_nil

/-- Only the keys and the unions of the parts matter. -/
theorem Merged.congr (hmerged : Merged parts queue)
    (hkeys : ∀ k, Handed parts k ↔ Handed parts' k)
    (hunion : ∀ k x, InUnion parts k x ↔ InUnion parts' k x) : Merged parts' queue where
  nodup := hmerged.nodup
  keys := fun k => (hmerged.keys k).trans (hkeys k)
  markings := fun entry hentry => by
    obtain ⟨l, hlist, hsorted, hmem⟩ := hmerged.markings entry hentry
    exact ⟨l, hlist, hsorted, fun x => (hmem x).trans (hunion entry.key x)⟩

/-- **The parts determine what the queue holds under each key.** -/
theorem Merged.unique (hmerged : Merged parts queue) (hother : Merged parts' queue')
    (hkeys : ∀ k, Handed parts k ↔ Handed parts' k)
    (hunion : ∀ k x, InUnion parts k x ↔ InUnion parts' k x) (k : Key) :
    (get? AddressRewrite.key k queue).map AddressRewrite.markings =
      (get? AddressRewrite.key k queue').map AddressRewrite.markings := by
  cases hget : get? AddressRewrite.key k queue with
  | none =>
      have hnot : ¬ Handed parts' k := by
        rw [← hkeys, ← hmerged.keys]
        rintro ⟨entry, hentry, hkey⟩
        exact get?_eq_none_iff.mp hget entry hentry hkey
      have hnone : get? AddressRewrite.key k queue' = none :=
        get?_eq_none_iff.mpr fun entry hentry hkey =>
          hnot ((hother.keys k).mp ⟨entry, hentry, hkey⟩)
      rw [hnone]
  | some entry =>
      obtain ⟨hentry, rfl⟩ := mem_of_get? hget
      obtain ⟨entry', hentry', hkey⟩ :=
        (hother.keys _).mpr ((hkeys _).mp ((hmerged.keys _).mp ⟨entry, hentry, rfl⟩))
      rw [(get?_eq_some_iff hother.nodup).mpr ⟨hentry', hkey⟩, Option.map_some, Option.map_some]
      obtain ⟨l, ⟨hsmall, hmarkings⟩, hsorted, hmem⟩ := hmerged.markings entry hentry
      obtain ⟨l', ⟨hsmall', hmarkings'⟩, hsorted', hmem'⟩ := hother.markings entry' hentry'
      have hsame : l = l' := eq_of_mem_iff hsorted hsorted' fun x => by
        rw [hmem, hmem', hkey, hunion]
      subst hsame
      rw [hmarkings, hmarkings']

end

section

variable (sorting : Sorting Entry.Before) {parts : List Part} {queue : List AddressRewrite}
variable {source : ChangeSource} {markings : MarkedOffsetsARM} {entries : List Entry}
variable {objectType objectIndex stageIndex : UInt32}

/-- What the queue is searched for is the key. -/
theorem same_iff_key (entry : AddressRewrite) :
    (sameSource entry.source source &&
        sameRewriteTarget entry objectType objectIndex stageIndex) = true ↔
      entry.key = keyOf source objectType objectIndex stageIndex := by
  simp only [sameSource, sameRewriteTarget, AddressRewrite.key, keyOf, Key.mk.injEq,
    Bool.and_eq_true, decide_eq_true_eq]
  tauto

theorem changes_rewrite : Changes AddressRewrite.key
    (keyOf source objectType objectIndex stageIndex)
    (fun entry => sameSource entry.source source &&
      sameRewriteTarget entry objectType objectIndex stageIndex)
    (mergeInto sorting markings)
    (newEntry sorting source markings objectType objectIndex stageIndex) where
  found_iff := same_iff_key
  update_key := fun entry entry' hold hnew => by
    obtain ⟨merged, -, rfl⟩ := Option.map_eq_some_iff.mp hnew
    exact hold
  fresh_key := fun entry hnew => by
    obtain ⟨normalized, -, rfl⟩ := Option.map_eq_some_iff.mp hnew
    rfl

/-- The entry that is put into the queue. -/
theorem put_spec (hmerged : Merged parts queue) (hread : readEntries markings = some entries)
    (hfits : held queue (keyOf source objectType objectIndex stageIndex) +
      markings.count.toNat < 2 ^ 32) :
    ∃ entry l,
      (get? AddressRewrite.key (keyOf source objectType objectIndex stageIndex) queue).elim
        (newEntry sorting source markings objectType objectIndex stageIndex)
        (mergeInto sorting markings) = some entry ∧
      entry.key = keyOf source objectType objectIndex stageIndex ∧ IsList entry.markings l ∧
      l.Pairwise Entry.Before ∧ ∀ x, x ∈ l ↔
        InUnion parts (keyOf source objectType objectIndex stageIndex) x ∨ x ∈ entries := by
  generalize hk : keyOf source objectType objectIndex stageIndex = k at hfits ⊢
  cases hget : get? AddressRewrite.key k queue with
  -- the key is new
  | none =>
      obtain ⟨normalized, hnormalized, hlist⟩ :=
        normalize_isList sorting (clone_of_readEntries hread)
      have hnot : ∀ x, ¬ InUnion parts k x := by
        intro x hunion
        obtain ⟨entry, hentry, hkey⟩ := (hmerged.keys k).mpr hunion.handed
        exact get?_eq_none_iff.mp hget entry hentry hkey
      refine ⟨⟨normalized, source, objectType, objectIndex, stageIndex⟩, _,
        by rw [Option.elim_none, newEntry, hnormalized, Option.map_some], hk, hlist, sorted_unique,
        fun x => ?_⟩
      rw [mem_unique]
      exact (or_iff_right (hnot x)).symm
  -- the key is known: the markings join those of its entry
  | some entry =>
      obtain ⟨hentry, rfl⟩ := mem_of_get? hget
      obtain ⟨l, hlist, -, hmem⟩ := hmerged.markings entry hentry
      rw [held, hget, Option.map_some, Option.getD_some] at hfits
      obtain ⟨merged, hmerge, hmergedList⟩ :=
        mergeMarkedOffsets_spec sorting hlist hread hfits
      refine ⟨{ entry with markings := merged }, _,
        by rw [Option.elim_some, mergeInto, hmerge, Option.map_some], rfl, hmergedList,
        sorted_unique, fun x => ?_⟩
      rw [mem_unique, List.mem_append, hmem]

/-- **One list of markings.** -/
theorem mergeRewriteMarkings_spec (hmerged : Merged parts queue)
    (hread : readEntries markings = some entries)
    (hfits : held queue (keyOf source objectType objectIndex stageIndex) +
      markings.count.toNat < 2 ^ 32) :
    ∃ next, mergeRewriteMarkings sorting queue source markings objectType objectIndex
        stageIndex = some next ∧
      Merged (parts ++ [⟨keyOf source objectType objectIndex stageIndex, entries⟩]) next ∧
      ∀ other, other ≠ keyOf source objectType objectIndex stageIndex →
        held next other = held queue other := by
  obtain ⟨entry, l, hput, hkey, hlist, hsorted, hmem⟩ :=
    put_spec sorting hmerged hread hfits
  obtain ⟨next, hnext, hnodup, hin⟩ := upsert_spec (changes_rewrite sorting) hmerged.nodup hput
  generalize keyOf source objectType objectIndex stageIndex = k at hkey hmem hin ⊢
  refine ⟨next, hnext, ⟨hnodup, fun other => ?_, fun other hother => ?_⟩, fun other hother => ?_⟩
  · rw [handed_append, handed_singleton, ← hmerged.keys]
    exact keys_of_mem_iff hkey hin other
  · rcases (hin other).mp hother with rfl | ⟨hold, hne⟩
    · refine ⟨l, hlist, hsorted, fun x => ?_⟩
      rw [hmem, inUnion_append, inUnion_singleton, hkey]
      simp
    · obtain ⟨l', hlist', hsorted', hmem'⟩ := hmerged.markings other hold
      refine ⟨l', hlist', hsorted', fun x => ?_⟩
      rw [hmem', inUnion_append, inUnion_singleton]
      exact (or_iff_left fun h => hne h.1.symm).symm
  · rw [held, held, get?_of_mem_iff hmerged.nodup hnodup hkey hin hother]

end

/-! ## Buckets -/

/-- The markings that are handed over under a key, in their order. -/
def entriesUnder (parts : List Part) (k : Key) : List Entry :=
  (parts.filter fun part => part.key = k).flatMap Part.entries

/-- A bucket as a part. -/
def OutputMarkingsBucket.part (bucket : OutputMarkingsBucket) : Part :=
  ⟨bucket.key, bucket.entries⟩

/-- The buckets have what was handed over. -/
structure Bucketed (parts : List Part) (buckets : List OutputMarkingsBucket) : Prop where
  nodup : (buckets.map OutputMarkingsBucket.key).Nodup
  keys : ∀ k, (∃ bucket ∈ buckets, bucket.key = k) ↔ Handed parts k
  entries : ∀ bucket ∈ buckets, bucket.entries = entriesUnder parts bucket.key
  filled : ∀ bucket ∈ buckets, bucket.entries ≠ []

section

variable {parts parts' : List Part} {buckets : List OutputMarkingsBucket} {k : Key} {x : Entry}

theorem entriesUnder_append :
    entriesUnder (parts ++ parts') k = entriesUnder parts k ++ entriesUnder parts' k := by
  rw [entriesUnder, List.filter_append, List.flatMap_append]
  rfl

theorem entriesUnder_singleton (part : Part) :
    entriesUnder [part] k = if part.key = k then part.entries else [] := by
  by_cases hkey : part.key = k
  · simp [entriesUnder, hkey]
  · simp [entriesUnder, hkey]

theorem mem_entriesUnder : x ∈ entriesUnder parts k ↔ InUnion parts k x := by
  simp only [entriesUnder, List.mem_flatMap, List.mem_filter, decide_eq_true_eq, InUnion, and_assoc]

theorem entriesUnder_eq_nil (hnot : ¬ Handed parts k) : entriesUnder parts k = [] := by
  rw [List.eq_nil_iff_forall_not_mem]
  intro x hx
  exact hnot (mem_entriesUnder.mp hx).handed

theorem bucketed_nil : Bucketed [] [] where
  nodup := List.nodup_nil
  keys := fun k => by simp [Handed]
  entries := fun bucket hbucket => absurd hbucket List.not_mem_nil
  filled := fun bucket hbucket => absurd hbucket List.not_mem_nil

/-- The buckets hand over what went into them. -/
theorem Bucketed.handed (hbucketed : Bucketed parts buckets) (k : Key) :
    Handed (buckets.map OutputMarkingsBucket.part) k ↔ Handed parts k := by
  rw [← hbucketed.keys]
  simp only [Handed, List.mem_map, exists_exists_and_eq_and, OutputMarkingsBucket.part]

theorem Bucketed.inUnion (hbucketed : Bucketed parts buckets) (k : Key) (x : Entry) :
    InUnion (buckets.map OutputMarkingsBucket.part) k x ↔ InUnion parts k x := by
  constructor
  · rintro ⟨part, hpart, rfl, hx⟩
    obtain ⟨bucket, hbucket, rfl⟩ := List.mem_map.mp hpart
    replace hx : x ∈ bucket.entries := hx
    rw [hbucketed.entries bucket hbucket] at hx
    exact mem_entriesUnder.mp hx
  · intro hunion
    obtain ⟨bucket, hbucket, rfl⟩ := (hbucketed.keys k).mpr hunion.handed
    refine ⟨bucket.part, List.mem_map_of_mem hbucket, rfl, ?_⟩
    show x ∈ bucket.entries
    rw [hbucketed.entries bucket hbucket]
    exact mem_entriesUnder.mpr hunion

end

section

variable {tracker : MemoryFlagTracker} {marking : DiscoveredBufferMarking tracker}
variable {parts : List Part} {buckets : List OutputMarkingsBucket} {source : ChangeSource}

/-- The key under which a discovered marking belongs, with its source. -/
def DiscoveredBufferMarking.key (marking : DiscoveredBufferMarking tracker)
    (source : ChangeSource) : Key :=
  keyOf source marking.objectType marking.objectIndex marking.outputStageIndex

/-- What a discovered marking hands over; nothing if no packet covers it. -/
def DiscoveredBufferMarking.handsOver (marking : DiscoveredBufferMarking tracker) : List Part :=
  match marking.findSource with
  | some (some source) => [⟨marking.key source, [marking.entry]⟩]
  | _ => []

theorem changes_bucket : Changes OutputMarkingsBucket.key (marking.key source)
    (fun bucket => sameSource bucket.source source && bucket.objectType = marking.objectType &&
      bucket.objectIndex = marking.objectIndex && bucket.stageIndex = marking.outputStageIndex)
    (fun bucket => some { bucket with entries := bucket.entries ++ [marking.entry] })
    (some ⟨source, marking.objectType, marking.objectIndex, marking.outputStageIndex,
      [marking.entry]⟩) where
  found_iff := fun bucket => by
    simp only [sameSource, OutputMarkingsBucket.key, DiscoveredBufferMarking.key, keyOf,
      Key.mk.injEq, Bool.and_eq_true, decide_eq_true_eq]
    tauto
  update_key := fun bucket bucket' hold hnew => by
    cases hnew
    exact hold
  fresh_key := fun bucket hnew => by
    cases hnew
    rfl

/-- A marking goes into the bucket of its key. -/
theorem addToBucket_spec (hbucketed : Bucketed parts buckets) :
    ∃ next, addToBucket marking source buckets = some next ∧
      Bucketed (parts ++ [⟨marking.key source, [marking.entry]⟩]) next := by
  -- a bucket of the key, new or as it was, with the marking at its end
  have hput : ∃ bucket, (get? OutputMarkingsBucket.key (marking.key source) buckets).elim
      (some ⟨source, marking.objectType, marking.objectIndex, marking.outputStageIndex,
        [marking.entry]⟩)
      (fun bucket => some { bucket with entries := bucket.entries ++ [marking.entry] }) =
        some bucket ∧ bucket.key = marking.key source ∧
      bucket.entries = entriesUnder parts (marking.key source) ++ [marking.entry] := by
    cases hget : get? OutputMarkingsBucket.key (marking.key source) buckets with
    | none =>
        refine ⟨_, rfl, rfl, ?_⟩
        have hnot : ¬ Handed parts (marking.key source) := by
          rw [← hbucketed.keys]
          rintro ⟨bucket, hbucket, hkey⟩
          exact get?_eq_none_iff.mp hget bucket hbucket hkey
        rw [entriesUnder_eq_nil hnot, List.nil_append]
    | some bucket =>
        obtain ⟨hbucket, hkey⟩ := mem_of_get? hget
        refine ⟨_, rfl, hkey, ?_⟩
        show bucket.entries ++ [marking.entry] = _
        rw [hbucketed.entries bucket hbucket, hkey]
  obtain ⟨bucket, hput, hkey, hentries⟩ := hput
  obtain ⟨next, hnext, hnodup, hin⟩ := upsert_spec changes_bucket hbucketed.nodup hput
  generalize marking.key source = k at hkey hentries hin ⊢
  refine ⟨next, hnext, hnodup, fun other => ?_, fun other hother => ?_, fun other hother => ?_⟩
  · rw [handed_append, handed_singleton, ← hbucketed.keys]
    exact keys_of_mem_iff hkey hin other
  · rw [entriesUnder_append, entriesUnder_singleton]
    rcases (hin other).mp hother with rfl | ⟨hold, hne⟩
    · rw [hentries, hkey, if_pos rfl]
    · rw [hbucketed.entries other hold, if_neg (Ne.symm hne), List.append_nil]
  · rcases (hin other).mp hother with rfl | ⟨hold, hne⟩
    · rw [hentries]
      simp
    · exact hbucketed.filled other hold

/-- One round of the first loop. -/
theorem collectMarking_spec (hbucketed : Bucketed parts buckets)
    (hfound : marking.findSource.isSome) :
    ∃ next, collectMarking buckets marking = some next ∧
      Bucketed (parts ++ marking.handsOver) next := by
  obtain ⟨found, hfound⟩ := Option.isSome_iff_exists.mp hfound
  unfold collectMarking DiscoveredBufferMarking.handsOver
  rw [hfound]
  cases found with
  | none => exact ⟨buckets, rfl, by rwa [List.append_nil]⟩
  | some source => exact addToBucket_spec hbucketed

/-- The first loop. -/
theorem exec_collectMarking {discovered : List (DiscoveredBufferMarking tracker)}
    (hbucketed : Bucketed parts buckets)
    (hfound : ∀ marking ∈ discovered, marking.findSource.isSome) :
    ∃ next, exec collectMarking buckets discovered = some next ∧
      Bucketed (parts ++ discovered.flatMap DiscoveredBufferMarking.handsOver) next := by
  induction discovered generalizing parts buckets with
  | nil => exact ⟨buckets, rfl, by rwa [List.flatMap_nil, List.append_nil]⟩
  | cons marking discovered ih =>
      rw [List.forall_mem_cons] at hfound
      obtain ⟨middle, hmiddle, hbucketed⟩ := collectMarking_spec hbucketed hfound.1
      obtain ⟨next, hnext, hbucketed⟩ := ih hbucketed hfound.2
      refine ⟨next, exec_cons_eq_some_iff.mpr ⟨middle, hmiddle, hnext⟩, ?_⟩
      rwa [List.flatMap_cons, ← List.append_assoc]

end

/-- The number of markings in a bucket, cast to 32 bits, keeps all different ones, and there is
room for them. -/
def BucketFits (held : Nat) (entries : List Entry) : Prop :=
  (∀ x ∈ entries, x ∈ entries.take (entries.length % 2 ^ 32)) ∧
    held + (entries.take (entries.length % 2 ^ 32)).dedup.length < 2 ^ 32

section

variable (sorting : Sorting Entry.Before) {parts : List Part} {queue : List AddressRewrite}
variable {bucket : OutputMarkingsBucket} {buckets : List OutputMarkingsBucket}

theorem buildMarkedOffsets_spec {entries : List Entry} {room : Nat} (hne : entries ≠ [])
    (hfits : BucketFits room entries) :
    ∃ markings l, buildMarkedOffsets sorting entries = some markings ∧ IsList markings l ∧
      room + markings.count.toNat < 2 ^ 32 ∧ ∀ x, x ∈ l ↔ x ∈ entries := by
  obtain ⟨kept, hsmall, hkept, hbuild⟩ : ∃ (kept : List Entry) (hsmall : kept.length < 2 ^ 32),
      kept = entries.take (entries.length % 2 ^ 32) ∧
      buildMarkedOffsets sorting entries = normalizeEntries sorting kept hsmall :=
    ⟨_, _, rfl, if_neg hne⟩
  obtain ⟨hall, hroom⟩ := hfits
  rw [← hkept] at hall hroom
  have hsub : ∀ x ∈ kept, x ∈ entries := fun x hx => List.mem_of_mem_take (hkept ▸ hx)
  have hkeptNe : kept ≠ [] := by
    intro hnil
    obtain ⟨x, hx⟩ := List.exists_mem_of_ne_nil entries hne
    exact absurd (hall x hx) (hnil ▸ List.not_mem_nil)
  have hlist : IsList (.ofEntries kept hsmall) kept :=
    ⟨hsmall, (clone_ofEntries hsmall hkeptNe).symm⟩
  obtain ⟨markings, hmarkings, hresult⟩ := normalize_isList sorting hlist
  refine ⟨markings, _, hbuild.trans hmarkings, hresult, ?_, fun x => ?_⟩
  · rw [hresult.count, length_unique_eq]
    exact hroom
  · rw [mem_unique]
    exact ⟨hsub x, hall x⟩

/-- One round of the second loop. -/
theorem mergeBucket_spec (hmerged : Merged parts queue) (hne : bucket.entries ≠ [])
    (hfits : BucketFits (held queue bucket.key) bucket.entries) :
    ∃ next, mergeBucket sorting queue bucket = some next ∧ Merged (parts ++ [bucket.part]) next ∧
      ∀ other, other ≠ bucket.key → held next other = held queue other := by
  obtain ⟨markings, l, hbuild, hlist, hroom, hmem⟩ :=
    buildMarkedOffsets_spec sorting hne hfits
  obtain ⟨next, hnext, hmerged, hothers⟩ :=
    mergeRewriteMarkings_spec sorting hmerged hlist.readEntries hroom
  refine ⟨next, by rw [mergeBucket, hbuild, Option.bind_some, hnext],
    hmerged.congr (fun k => ?_) (fun k x => ?_), hothers⟩
  · rw [handed_append, handed_append, handed_singleton, handed_singleton]
    rfl
  · rw [inUnion_append, inUnion_append, inUnion_singleton, inUnion_singleton]
    simp only [hmem]
    rfl

/-- The second loop.  The buckets have different keys, so each one still finds what was held under
its own. -/
theorem exec_mergeBucket (hmerged : Merged parts queue)
    (hnodup : (buckets.map OutputMarkingsBucket.key).Nodup)
    (hne : ∀ bucket ∈ buckets, bucket.entries ≠ [])
    (hfits : ∀ bucket ∈ buckets, BucketFits (held queue bucket.key) bucket.entries) :
    ∃ next, exec (mergeBucket sorting) queue buckets = some next ∧
      Merged (parts ++ buckets.map OutputMarkingsBucket.part) next := by
  induction buckets generalizing parts queue with
  | nil => exact ⟨queue, rfl, by rwa [List.map_nil, List.append_nil]⟩
  | cons bucket buckets ih =>
      rw [List.map_cons, List.nodup_cons] at hnodup
      rw [List.forall_mem_cons] at hne hfits
      obtain ⟨middle, hmiddle, hmerged, hothers⟩ :=
        mergeBucket_spec sorting hmerged hne.1 hfits.1
      obtain ⟨next, hnext, hmerged⟩ := ih hmerged hnodup.2 hne.2 fun other hother => by
        have hkey : other.key ≠ bucket.key := fun heq =>
          hnodup.1 (heq ▸ List.mem_map_of_mem hother)
        rw [hothers other.key hkey]
        exact hfits.2 other hother
      refine ⟨next, exec_cons_eq_some_iff.mpr ⟨middle, hmiddle, hnext⟩, ?_⟩
      rwa [List.map_cons, ← List.singleton_append, ← List.append_assoc]

end

/-! ## Runs -/

section

variable {tracker : MemoryFlagTracker}

/-- What a call hands over. -/
def Call.handsOver : Call tracker → List Part
  | .rewrite source markings objectType objectIndex stageIndex =>
      [⟨keyOf source objectType objectIndex stageIndex, (readEntries markings).getD []⟩]
  | .discovered markings => markings.flatMap DiscoveredBufferMarking.handsOver

/-- The markings of a call are populated: all arrays are there, or there is a size and a buffer or a
source. -/
def Call.Populated : Call tracker → Prop
  | .rewrite _ markings _ _ _ => (readEntries markings).isSome
  | .discovered markings => ∀ marking ∈ markings, marking.findSource.isSome

/-- The numbers of markings hold, together with those that are in the queue. -/
def Fits (queue : List AddressRewrite) : Call tracker → Prop
  | .rewrite source markings objectType objectIndex stageIndex =>
      held queue (keyOf source objectType objectIndex stageIndex) + markings.count.toNat < 2 ^ 32
  | .discovered markings => ∀ k, BucketFits (held queue k)
      (entriesUnder (markings.flatMap DiscoveredBufferMarking.handsOver) k)

/-- Calls with the same markings, where those that were discovered may be in another order. -/
def Call.Same : Call tracker → Call tracker → Prop
  | .discovered markings, .discovered markings' =>
      ∀ marking, marking ∈ markings ↔ marking ∈ markings'
  | call, call' => call = call'

/-- The same calls, in any order and any number of times. -/
def SameCalls (calls calls' : List (Call tracker)) : Prop :=
  (∀ call ∈ calls, ∃ call' ∈ calls', call.Same call') ∧
    ∀ call' ∈ calls', ∃ call ∈ calls, call.Same call'

variable (sorting : Sorting Entry.Before) {parts : List Part} {queue : List AddressRewrite}
variable {call call' : Call tracker} {calls calls' : List (Call tracker)}

theorem mergeDiscoveredMarkings_spec {discovered : List (DiscoveredBufferMarking tracker)}
    (hmerged : Merged parts queue) (hfound : ∀ marking ∈ discovered, marking.findSource.isSome)
    (hfits : ∀ k, BucketFits (held queue k)
      (entriesUnder (discovered.flatMap DiscoveredBufferMarking.handsOver) k)) :
    ∃ next, mergeDiscoveredMarkings sorting queue discovered = some next ∧
      Merged (parts ++ discovered.flatMap DiscoveredBufferMarking.handsOver) next := by
  obtain ⟨buckets, hbuckets, hbucketed⟩ := exec_collectMarking bucketed_nil hfound
  rw [List.nil_append] at hbucketed
  obtain ⟨next, hnext, hmerged⟩ := exec_mergeBucket sorting hmerged hbucketed.nodup
    hbucketed.filled fun bucket hbucket => by
      rw [hbucketed.entries bucket hbucket]
      exact hfits bucket.key
  refine ⟨next, by rw [mergeDiscoveredMarkings, hbuckets, Option.bind_some, hnext],
    hmerged.congr (fun k => ?_) fun k x => ?_⟩
  · rw [handed_append, handed_append, hbucketed.handed]
  · rw [inUnion_append, inUnion_append, hbucketed.inUnion]

/-- **One call.** -/
theorem step_merged (hmerged : Merged parts queue) (hpopulated : call.Populated)
    (hfits : Fits queue call) :
    ∃ next, step sorting queue call = some next ∧ Merged (parts ++ call.handsOver) next := by
  cases call with
  | rewrite source markings objectType objectIndex stageIndex =>
      obtain ⟨entries, hread⟩ := Option.isSome_iff_exists.mp hpopulated
      obtain ⟨next, hnext, hmerged, -⟩ :=
        mergeRewriteMarkings_spec sorting hmerged hread hfits
      refine ⟨next, hnext, ?_⟩
      rwa [Call.handsOver, hread]
  | discovered markings => exact mergeDiscoveredMarkings_spec sorting hmerged hpopulated hfits

/-- **A run of calls.** -/
theorem exec_merged (hmerged : Merged parts queue) (hpopulated : ∀ call ∈ calls, call.Populated)
    (hfits : Along (step sorting) Fits queue calls) :
    ∃ next, exec (step sorting) queue calls = some next ∧
      Merged (parts ++ calls.flatMap Call.handsOver) next := by
  induction calls generalizing parts queue with
  | nil => exact ⟨queue, rfl, by rwa [List.flatMap_nil, List.append_nil]⟩
  | cons call calls ih =>
      rw [List.forall_mem_cons] at hpopulated
      obtain ⟨middle, hmiddle, hmerged⟩ := step_merged sorting hmerged hpopulated.1 hfits.1
      obtain ⟨next, hnext, hmerged⟩ := ih hmerged hpopulated.2 (hfits.2 middle hmiddle)
      refine ⟨next, exec_cons_eq_some_iff.mpr ⟨middle, hmiddle, hnext⟩, ?_⟩
      rwa [List.flatMap_cons, ← List.append_assoc]

theorem Call.Same.mem_handsOver (hsame : call.Same call') (part : Part) :
    part ∈ call.handsOver ↔ part ∈ call'.handsOver := by
  unfold Call.Same at hsame
  split at hsame
  · simp only [Call.handsOver, List.mem_flatMap, hsame]
  · rw [hsame]

theorem Call.Same.populated (hsame : call.Same call') (hpopulated : call.Populated) :
    call'.Populated := by
  unfold Call.Same at hsame
  split at hsame
  · intro marking hmarking
    exact hpopulated marking ((hsame marking).mpr hmarking)
  · exact hsame ▸ hpopulated

theorem SameCalls.mem_handsOver (hsame : SameCalls calls calls') (part : Part) :
    part ∈ calls.flatMap Call.handsOver ↔ part ∈ calls'.flatMap Call.handsOver := by
  rw [List.mem_flatMap, List.mem_flatMap]
  constructor
  · rintro ⟨call, hcall, hpart⟩
    obtain ⟨call', hcall', hsame⟩ := hsame.1 call hcall
    exact ⟨call', hcall', (hsame.mem_handsOver part).mp hpart⟩
  · rintro ⟨call', hcall', hpart⟩
    obtain ⟨call, hcall, hsame⟩ := hsame.2 call' hcall'
    exact ⟨call, hcall, (hsame.mem_handsOver part).mpr hpart⟩

/-- **Merging is a union.**  As long as the 32-bit numbers of markings hold, populated calls are
carried out, the queue has one entry for each key with the sorted union of what was handed over
under it, and the same calls in any order and any number of times lead to the same map. -/
theorem markings_merged (hpopulated : ∀ call ∈ calls, call.Populated)
    (hfits : Along (step sorting) Fits [] calls) :
    ∃ queue, exec (step sorting) [] calls = some queue ∧
      Merged (calls.flatMap Call.handsOver) queue ∧
      ∀ calls', SameCalls calls calls' → Along (step sorting) Fits [] calls' →
        ∃ queue', exec (step sorting) [] calls' = some queue' ∧
          ∀ k, (get? AddressRewrite.key k queue).map AddressRewrite.markings =
            (get? AddressRewrite.key k queue').map AddressRewrite.markings := by
  obtain ⟨queue, hqueue, hmerged⟩ := exec_merged sorting merged_nil hpopulated hfits
  refine ⟨queue, hqueue, hmerged, fun calls' hsame hfits' => ?_⟩
  have hpopulated' : ∀ call' ∈ calls', call'.Populated := fun call' hcall' => by
    obtain ⟨call, hcall, hsame⟩ := hsame.2 call' hcall'
    exact hsame.populated (hpopulated call hcall)
  obtain ⟨queue', hqueue', hmerged'⟩ := exec_merged sorting merged_nil hpopulated' hfits'
  refine ⟨queue', hqueue', hmerged.unique hmerged' (fun k => ?_) fun k x => ?_⟩
  · simp only [Handed, List.nil_append, hsame.mem_handsOver]
  · simp only [InUnion, List.nil_append, hsame.mem_handsOver]

end

/-! ### Few markings -/

/-- The number of all markings that are handed over. -/
def total (parts : List Part) : Nat := (parts.map fun part => part.entries.length).sum

section

variable {tracker : MemoryFlagTracker} {sorting : Sorting Entry.Before} {parts parts' : List Part}
variable {queue : List AddressRewrite} {k : Key} {call : Call tracker}
variable {calls : List (Call tracker)}

theorem total_append : total (parts ++ parts') = total parts + total parts' := by
  simp [total]

theorem length_entriesUnder : (entriesUnder parts k).length ≤ total parts := by
  induction parts with
  | nil => exact le_rfl
  | cons part parts ih =>
      rw [← List.singleton_append, entriesUnder_append, entriesUnder_singleton, total_append,
        List.length_append]
      have hpart : (if part.key = k then part.entries else []).length ≤ total [part] := by
        split_ifs
        · simp [total]
        · exact Nat.zero_le _
      omega

theorem held_le (hmerged : Merged parts queue) : held queue k ≤ (entriesUnder parts k).length := by
  unfold held
  cases hget : get? AddressRewrite.key k queue with
  | none => exact Nat.zero_le _
  | some entry =>
      obtain ⟨hentry, rfl⟩ := mem_of_get? hget
      obtain ⟨l, hlist, hsorted, hmem⟩ := hmerged.markings entry hentry
      rw [Option.map_some, Option.getD_some, hlist.count]
      exact ((nodup_of_sorted hsorted).subperm fun x hx =>
        mem_entriesUnder.mpr ((hmem x).mp hx)).length_le

theorem bucketFits_of_length {room : Nat} {entries : List Entry}
    (hfew : room + entries.length < 2 ^ 32) : BucketFits room entries := by
  unfold BucketFits
  rw [Nat.mod_eq_of_lt (by omega), List.take_length]
  have hle := entries.dedup_sublist.length_le
  exact ⟨fun x hx => hx, by omega⟩

theorem fits_of_few (hmerged : Merged parts queue) (hpopulated : call.Populated)
    (hfew : total (parts ++ call.handsOver) < 2 ^ 32) : Fits queue call := by
  rw [total_append] at hfew
  cases call with
  | rewrite source markings objectType objectIndex stageIndex =>
      obtain ⟨entries, hread⟩ := Option.isSome_iff_exists.mp hpopulated
      have hheld : held queue (keyOf source objectType objectIndex stageIndex) ≤ total parts :=
        (held_le hmerged).trans length_entriesUnder
      have hcount : markings.count.toNat = entries.length := by
        rw [← count_clone, (clone_of_readEntries hread).count]
      simp only [Call.handsOver, hread, Option.getD_some, total, List.map_cons, List.map_nil,
        List.sum_cons, List.sum_nil] at hfew
      show held queue _ + markings.count.toNat < 2 ^ 32
      unfold total at hheld
      omega
  | discovered markings =>
      intro k
      have hheld : held queue k ≤ total parts := (held_le hmerged).trans length_entriesUnder
      have hlength : (entriesUnder (markings.flatMap DiscoveredBufferMarking.handsOver) k).length ≤
          total (markings.flatMap DiscoveredBufferMarking.handsOver) := length_entriesUnder
      refine bucketFits_of_length ?_
      replace hfew : total parts +
        total (markings.flatMap DiscoveredBufferMarking.handsOver) < 2 ^ 32 := hfew
      omega

/-- Fewer than `2 ^ 32` markings always fit. -/
theorem along_fits (hmerged : Merged parts queue) (hpopulated : ∀ call ∈ calls, call.Populated)
    (hfew : total (parts ++ calls.flatMap Call.handsOver) < 2 ^ 32) :
    Along (step sorting) Fits queue calls := by
  induction calls generalizing parts queue with
  | nil => trivial
  | cons call calls ih =>
      rw [List.forall_mem_cons] at hpopulated
      rw [List.flatMap_cons, ← List.append_assoc] at hfew
      have hfits : Fits queue call := fits_of_few hmerged hpopulated.1 (by
        rw [total_append] at hfew
        omega)
      refine ⟨hfits, fun next hnext => ?_⟩
      obtain ⟨next', hnext', hmerged'⟩ :=
        step_merged sorting hmerged hpopulated.1 hfits
      cases hnext.symm.trans hnext'
      exact ih hmerged' hpopulated.2 hfew

end

/-! ### Examples -/

/-- A call in the first frame. -/
def someSource : ChangeSource := ⟨4, 0, 0, 2, 7⟩

/-- One marking of the same call, found in a buffer. -/
def oneDiscovered : DiscoveredBufferMarking fragmentTracker where
  bufferData := none
  outputObjectType := 9
  outputObjectIndex := 1
  outputStageIndex := nullValue
  offset := 16
  size := 8
  type := 1
  subtype := 0
  hasExplicitSource := true
  source := someSource

/-- Markings with a repetition, and twice the same one behind them. -/
def threeCalls : List (Call fragmentTracker) :=
  [.rewrite someSource (.ofEntries [⟨8, 1, 0⟩, ⟨0, 1, 0⟩, ⟨8, 1, 0⟩] (by decide)) 9 1 nullValue,
    .discovered [oneDiscovered], .discovered [oneDiscovered, oneDiscovered]]

theorem markings_merged_threeCalls :
    ∃ queue, exec (step entrySorting) [] threeCalls = some queue ∧
      Merged (threeCalls.flatMap Call.handsOver) queue := by
  have hpopulated : ∀ call ∈ threeCalls, call.Populated := by
    simp [threeCalls, Call.Populated, readEntries_ofEntries, DiscoveredBufferMarking.findSource,
      oneDiscovered]
  have hfits : Along (step entrySorting) Fits [] threeCalls :=
    along_fits merged_nil hpopulated (by decide)
  obtain ⟨queue, hqueue, hmerged, -⟩ := markings_merged entrySorting hpopulated hfits
  exact ⟨queue, hqueue, hmerged⟩

/-- As many markings as the number can hold. -/
def mostMarkings : MarkedOffsetsARM :=
  .ofEntries (List.replicate (2 ^ 32 - 1) ⟨8, 1, 0⟩) (by rw [List.length_replicate]; norm_num)

/-- One marking, and then as many as the number can hold. -/
def wrappingCalls : List (Call fragmentTracker) :=
  [.rewrite someSource (.ofEntries [⟨0, 1, 0⟩] (by decide)) 9 1 nullValue,
    .rewrite someSource mostMarkings 9 1 nullValue]

/-- **The sum of the numbers is zero**, and no marking is left. -/
theorem merged_markings_lost :
    (∀ call ∈ wrappingCalls, call.Populated) ∧
      ∃ queue, exec (step entrySorting) [] wrappingCalls = some queue ∧
        ¬ Merged (wrappingCalls.flatMap Call.handsOver) queue := by
  have hpopulated : ∀ call ∈ wrappingCalls, call.Populated := by
    refine List.forall_mem_cons.mpr ⟨rfl, List.forall_mem_singleton.mpr ?_⟩
    show (readEntries mostMarkings).isSome
    rw [mostMarkings, readEntries_ofEntries, Option.isSome_some]
  have hsum : (MarkedOffsetsARM.ofEntries [⟨0, 1, 0⟩] (by decide)).count + mostMarkings.count =
      0 := by
    rw [← UInt32.toNat_inj, UInt32.toNat_add, mostMarkings, count_ofEntries, count_ofEntries,
      List.length_replicate]
    rfl
  have hfirst : mergeRewriteMarkings entrySorting [] someSource
      (.ofEntries [⟨0, 1, 0⟩] (by decide)) 9 1 nullValue =
        some [⟨.ofEntries [⟨0, 1, 0⟩] (by decide), someSource, 9, 1, nullValue⟩] := rfl
  have hsecond : mergeRewriteMarkings entrySorting
      [⟨.ofEntries [⟨0, 1, 0⟩] (by decide), someSource, 9, 1, nullValue⟩] someSource mostMarkings
        9 1 nullValue = some [⟨noMarkings, someSource, 9, 1, nullValue⟩] := by
    have hfound : (sameSource someSource someSource && sameRewriteTarget
        ⟨.ofEntries [⟨0, 1, 0⟩] (by decide), someSource, 9, 1, nullValue⟩ 9 1 nullValue) = true :=
      rfl
    rw [mergeRewriteMarkings, upsert, if_pos hfound, mergeInto, mergeMarkedOffsets, if_pos hsum]
    rfl
  refine ⟨hpopulated, _, exec_cons_eq_some_iff.mpr
    ⟨_, hfirst, exec_cons_eq_some_iff.mpr ⟨_, hsecond, rfl⟩⟩, fun hmerged => ?_⟩
  obtain ⟨l, hlist, -, hmem⟩ := hmerged.markings _ List.mem_cons_self
  have hnil : l = [] := List.length_eq_zero_iff.mp hlist.count.symm
  have hunion : InUnion (wrappingCalls.flatMap Call.handsOver)
      (keyOf someSource 9 1 nullValue) ⟨0, 1, 0⟩ :=
    ⟨_, List.mem_cons_self, rfl, by
      rw [readEntries_ofEntries]
      exact List.mem_singleton_self _⟩
  have hin : (⟨0, 1, 0⟩ : Entry) ∈ l := (hmem _).mpr hunion
  rw [hnil] at hin
  exact List.not_mem_nil hin

end MarkingMerge
end Lavatube
