import Mathlib.Tactic
import Lavatube.HostWriteRegions
import Lavatube.Lib.Sorting
import Lavatube.UpdatePackets

/-!
# Coverage of markings

Two traces are compared by the bytes of each device memory that their markings cover.  The places of
the markings are sorted and merged; a sweep over both lists reports the ranges that only one of the
traces covers.

* `collectMarkingCoverage` — the places, sorted and merged.
* `uncoveredRanges` — the ranges that only the first list covers.
* `collectMarkingCoverage_spec` — merged ranges lie apart and cover what the places cover.
* `uncoveredRanges_spec` — the sweep is a difference of sets.
* `coverage_comparison` — what the comparison of two traces says.
-/

namespace Lavatube
namespace MarkingCoverage

open HostWriteRegions

/-! ### The places -/

/-- `marking_coverage_location`: from `first` to `last`, both included. -/
structure Location where
  memoryIndex : Nat
  first : Nat
  last : Nat
deriving DecidableEq, Repr

/-- The order of `marking_coverage_location_less`. -/
def Location.Before (a b : Location) : Prop :=
  if a.memoryIndex ≠ b.memoryIndex then a.memoryIndex < b.memoryIndex
  else if a.first ≠ b.first then a.first < b.first
  else a.last < b.last

/-- `collected_markings_entry`, as far as it is used; the markings are those that are there. -/
structure CollectedMarkingsEntry where
  source : ChangeSource
  instrtype : Nat
  memoryIndex : Nat
  memoryOffset : Nat
  markings : Option (List UpdatePackets.Entry)
deriving DecidableEq

/-- `CONTAINER_NULL_VALUE`. -/
def nullValue : Nat := 0xfffffffe

/-- `is_capture_flush_leftover_markings`; the names of the functions are generated. -/
def isCaptureFlushLeftoverMarkings (getFunctionName : UInt16 → String)
    (entry : CollectedMarkingsEntry) : Bool :=
  entry.instrtype = 2 ∧ entry.source.callId ≠ 0xffff ∧
    getFunctionName entry.source.callId = "vkFlushMappedMemoryRanges"

/-- The values of `VkMarkingTypeARM` that are told apart. -/
structure MarkingTypes where
  deviceAddress : UInt32
  shaderGroupHandle : UInt32

/-- `marking_coverage_size`. -/
def markingCoverageSize (types : MarkingTypes) (type : UInt32) : Nat :=
  if type = types.deviceAddress then 8
  else if type = types.shaderGroupHandle then 32
  else 1

/-- The place of one marking; the sums have 64 bits. -/
def markingLocation (types : MarkingTypes) (entry : CollectedMarkingsEntry)
    (marking : UpdatePackets.Entry) : Location :=
  let first := (entry.memoryOffset + marking.offset.toNat) % 2 ^ 64
  { memoryIndex := entry.memoryIndex
    first := first
    last := (first + markingCoverageSize types marking.markingType + (2 ^ 64 - 1)) % 2 ^ 64 }

/-- The loop over the entries in `collect_marking_coverage`; `none` is an abort. -/
def markingLocations (getFunctionName : UInt16 → String) (types : MarkingTypes) :
    List CollectedMarkingsEntry → Option (List Location)
  | [] => some []
  | entry :: rest =>
      match entry.markings with
      | none => markingLocations getFunctionName types rest
      | some markings =>
          if isCaptureFlushLeftoverMarkings getFunctionName entry then
            markingLocations getFunctionName types rest
          else if entry.memoryIndex = nullValue then none
          else
            (markingLocations getFunctionName types rest).map
              (markings.map (markingLocation types entry) ++ ·)

/-! ### Merging and comparing -/

/-- The sum `last + 1`. -/
def next (last : Nat) : Nat := (last + 1) % 2 ^ 64

/-- The merge loop behind the range at the back. -/
def mergeInto (back : Location) : List Location → List Location
  | [] => [back]
  | location :: rest =>
      if back.memoryIndex = location.memoryIndex ∧ location.first ≤ next back.last then
        mergeInto { back with last := max back.last location.last } rest
      else
        back :: mergeInto location rest

/-- The merge loop of `collect_marking_coverage`. -/
def merge : List Location → List Location
  | [] => []
  | location :: rest => mergeInto location rest

/-- The end of `collect_marking_coverage`. -/
def collectMarkingCoverage (sorting : Sorting Location.Before) (locations : List Location) :
    List Location := merge (sorting.sort locations)

/-- What is left of a location from `pos` on. -/
def remaining (location : Location) (pos : Nat) : List Location :=
  if pos ≤ location.last then [{ location with first := pos }] else []

/-- The loop over `k` in `append_uncovered_marking_ranges` and what follows it: the ranges that are
reported for one location. -/
def scan (location : Location) (pos : Nat) : List Location → List Location
  | [] => remaining location pos
  | covered :: coverage =>
      if covered.memoryIndex = location.memoryIndex ∧ covered.first ≤ location.last then
        (if covered.first > pos then
          [{ location with first := pos, last := covered.first - 1 }] else []) ++
        -- behind a range that reaches to the end, `pos` is behind the location, too
        if covered.last ≥ location.last then remaining location (next location.last)
        else scan location (max pos (next covered.last)) coverage
      else
        remaining location pos

/-- The test of the loop over `j`: the range ends in front of the location. -/
def endsBefore (location covered : Location) : Bool :=
  covered.memoryIndex < location.memoryIndex ∨
    covered.memoryIndex = location.memoryIndex ∧ covered.last < location.first

/-- The ranges that `append_uncovered_marking_ranges` reports; `coverage` is what `j` has not passed
yet. -/
def uncoveredRanges : List Location → List Location → List Location
  | [], _ => []
  | location :: source, coverage =>
      let coverage := coverage.dropWhile (endsBefore location)
      scan location location.first coverage ++ uncoveredRanges source coverage

/-- `markings_compare_result`. -/
structure MarkingsCompareResult where
  identical : Bool := true
  messages : List String := []
deriving DecidableEq, Repr

/-- The message for a range. -/
def uncoveredMessage (side : String) (location : Location) : String :=
  "Marking memory only covered by " ++ side ++ ": DeviceMemory[" ++
    toString location.memoryIndex ++ "] offsets " ++ toString location.first ++ ".." ++
    toString location.last

/-- `append_uncovered_marking_ranges`. -/
def appendUncoveredMarkingRanges (source coverage : List Location) (side : String)
    (result : MarkingsCompareResult) : MarkingsCompareResult :=
  let ranges := uncoveredRanges source coverage
  { identical := result.identical && ranges.isEmpty
    messages := result.messages ++ ranges.map (uncoveredMessage side) }

/-- `compare_packed_file_marking_coverage`, with the entries of both files; `none` is an abort. -/
def comparePackedFileMarkingCoverage (sorting : Sorting Location.Before)
    (getFunctionName : UInt16 → String) (types : MarkingTypes)
    (packA packB : List CollectedMarkingsEntry) : Option MarkingsCompareResult :=
  match markingLocations getFunctionName types packA,
      markingLocations getFunctionName types packB with
  | some a, some b =>
      let a := collectMarkingCoverage sorting a
      let b := collectMarkingCoverage sorting b
      some (appendUncoveredMarkingRanges b a "B" (appendUncoveredMarkingRanges a b "A" {}))
  | _, _ => none

/-! ### The bytes that are covered -/

/-- The byte is in one of the ranges. -/
def Covers (locations : List Location) (memoryIndex x : Nat) : Prop :=
  ∃ location ∈ locations, location.memoryIndex = memoryIndex ∧ location.first ≤ x ∧
    x ≤ location.last

instance (locations : List Location) (memoryIndex x : Nat) :
    Decidable (Covers locations memoryIndex x) :=
  inferInstanceAs (Decidable (∃ location ∈ locations, _ ∧ _ ∧ _))

@[simp] theorem not_covers_nil (memoryIndex x : Nat) : ¬ Covers [] memoryIndex x := by
  simp [Covers]

@[simp] theorem covers_cons (location : Location) (rest : List Location) (memoryIndex x : Nat) :
    Covers (location :: rest) memoryIndex x ↔
      (location.memoryIndex = memoryIndex ∧ location.first ≤ x ∧ x ≤ location.last) ∨
        Covers rest memoryIndex x := by
  simp [Covers]

@[simp] theorem covers_append (left right : List Location) (memoryIndex x : Nat) :
    Covers (left ++ right) memoryIndex x ↔
      Covers left memoryIndex x ∨ Covers right memoryIndex x := by
  simp [Covers, or_and_right, exists_or]

/-- The range is not empty and ends in front of the last 64-bit number. -/
def Location.Valid (location : Location) : Prop :=
  location.first ≤ location.last ∧ location.last < 2 ^ 64 - 1

theorem next_eq {location : Location} (hvalid : location.Valid) :
    next location.last = location.last + 1 :=
  Nat.mod_eq_of_lt (by
    have := hvalid.2
    omega)

/-- There is a byte between the ranges, or they are in different memories. -/
def Apart (a b : Location) : Prop :=
  a.memoryIndex < b.memoryIndex ∨ a.memoryIndex = b.memoryIndex ∧ a.last + 1 < b.first

/-- The ranges of each memory are in order, and neither overlap nor touch. -/
structure Canonical (locations : List Location) : Prop where
  apart : locations.Pairwise Apart
  valid : ∀ location ∈ locations, location.Valid

theorem Canonical.cons_iff {location : Location} {rest : List Location} :
    Canonical (location :: rest) ↔
      (location.Valid ∧ ∀ other ∈ rest, Apart location other) ∧ Canonical rest := by
  constructor
  · rintro ⟨hapart, hvalid⟩
    obtain ⟨hfirst, hrest⟩ := List.pairwise_cons.mp hapart
    obtain ⟨hlocation, hothers⟩ := List.forall_mem_cons.mp hvalid
    exact ⟨⟨hlocation, hfirst⟩, hrest, hothers⟩
  · rintro ⟨⟨hlocation, hfirst⟩, hrest⟩
    exact ⟨List.pairwise_cons.mpr ⟨hfirst, hrest.apart⟩,
      List.forall_mem_cons.mpr ⟨hlocation, hrest.valid⟩⟩

/-! ### The merge -/

/-- The first number does not go down inside a memory. -/
def StartsBefore (a b : Location) : Prop :=
  a.memoryIndex < b.memoryIndex ∨ a.memoryIndex = b.memoryIndex ∧ a.first ≤ b.first

theorem startsBefore_of_not_before {a b : Location} (h : ¬ b.Before a) : StartsBefore a b := by
  unfold Location.Before at h
  unfold StartsBefore
  split_ifs at h <;> omega

/-- **The merge.**  Order, ranges that lie apart, and the union of what is covered. -/
theorem mergeInto_spec {back : Location} {rest : List Location} (hback : back.Valid)
    (hrest : ∀ location ∈ rest, location.Valid)
    (hbehind : ∀ location ∈ rest, StartsBefore back location)
    (hsorted : rest.Pairwise StartsBefore) :
    Canonical (mergeInto back rest) ∧
      (∀ location ∈ mergeInto back rest, StartsBefore back location) ∧
      ∀ memoryIndex x, Covers (mergeInto back rest) memoryIndex x ↔
        Covers (back :: rest) memoryIndex x := by
  induction rest generalizing back with
  | nil =>
      refine ⟨⟨List.pairwise_singleton _ _, ?_⟩, ?_, fun _ _ => Iff.rfl⟩
      · intro location hlocation
        exact List.mem_singleton.mp hlocation ▸ hback
      · intro location hlocation
        rw [List.mem_singleton.mp hlocation]
        exact Or.inr ⟨rfl, le_rfl⟩
  | cons location rest ih =>
      obtain ⟨hlocation, hrest⟩ := List.forall_mem_cons.mp hrest
      obtain ⟨hfirst, hbehind⟩ := List.forall_mem_cons.mp hbehind
      obtain ⟨hnext, hsorted⟩ := List.pairwise_cons.mp hsorted
      unfold mergeInto
      rw [next_eq hback]
      unfold Location.Valid at hback hlocation
      by_cases htouch : back.memoryIndex = location.memoryIndex ∧ location.first ≤ back.last + 1
      · -- the location is swallowed by the range at the back
        rw [if_pos htouch]
        have hgrown : Location.Valid { back with last := max back.last location.last } := by
          unfold Location.Valid
          simp only
          omega
        obtain ⟨hcanonical, hstarts, hcovers⟩ := ih hgrown hrest hbehind hsorted
        refine ⟨hcanonical, hstarts, fun memoryIndex x => ?_⟩
        rw [hcovers, covers_cons, covers_cons, covers_cons, ← or_assoc]
        refine or_congr_left ?_
        unfold StartsBefore at hfirst
        simp only
        omega
      · rw [if_neg htouch]
        obtain ⟨hcanonical, hstarts, hcovers⟩ := ih hlocation hrest hnext hsorted
        have happart : ∀ other ∈ mergeInto location rest, Apart back other := by
          intro other hother
          have hstart := hstarts other hother
          unfold StartsBefore at hstart hfirst
          unfold Apart
          omega
        refine ⟨Canonical.cons_iff.mpr ⟨⟨hback, happart⟩, hcanonical⟩, ?_, fun memoryIndex x => ?_⟩
        · intro other hother
          rcases List.mem_cons.mp hother with rfl | hother
          · exact Or.inr ⟨rfl, le_rfl⟩
          · have hstart := hstarts other hother
            unfold StartsBefore at hstart hfirst ⊢
            omega
        · rw [covers_cons, hcovers, covers_cons back]

theorem collectMarkingCoverage_spec (sorting : Sorting Location.Before)
    {locations : List Location} (hvalid : ∀ location ∈ locations, location.Valid) :
    Canonical (collectMarkingCoverage sorting locations) ∧
      ∀ memoryIndex x, Covers (collectMarkingCoverage sorting locations) memoryIndex x ↔
        Covers locations memoryIndex x := by
  have hsame : ∀ memoryIndex x, Covers (sorting.sort locations) memoryIndex x ↔
      Covers locations memoryIndex x := fun memoryIndex x => by
    simp [Covers, sorting.mem_sort]
  have hsorted : (sorting.sort locations).Pairwise StartsBefore :=
    (sorting.sorted locations).imp startsBefore_of_not_before
  have hvalid : ∀ location ∈ sorting.sort locations, location.Valid := fun location hlocation =>
    hvalid location (sorting.mem_sort.mp hlocation)
  simp only [← hsame]
  unfold collectMarkingCoverage
  cases hsort : sorting.sort locations with
  | nil => exact ⟨⟨List.Pairwise.nil, by simp [merge]⟩, fun _ _ => Iff.rfl⟩
  | cons location rest =>
      rw [hsort] at hsorted hvalid
      obtain ⟨hfirst, hsorted⟩ := List.pairwise_cons.mp hsorted
      obtain ⟨hlocation, hrest⟩ := List.forall_mem_cons.mp hvalid
      obtain ⟨hcanonical, -, hcovers⟩ := mergeInto_spec hlocation hrest hfirst hsorted
      exact ⟨hcanonical, hcovers⟩

/-! ### The sweep -/

/-- The first range ends in front of the second one, or they are in different memories. -/
def InOrder (a b : Location) : Prop :=
  a.memoryIndex < b.memoryIndex ∨ a.memoryIndex = b.memoryIndex ∧ a.last < b.first

/-- What the sweep has still to look at when it is at `pos` of the location. -/
def Ahead (location : Location) (pos : Nat) (coverage : List Location) : Prop :=
  ∀ covered ∈ coverage, location.memoryIndex ≤ covered.memoryIndex ∧
    (covered.memoryIndex = location.memoryIndex → pos ≤ covered.last)

/-- Ranges inside a location, from `pos` on and in order. -/
structure Inside (location : Location) (pos : Nat) (ranges : List Location) : Prop where
  inside : ∀ range ∈ ranges, range.memoryIndex = location.memoryIndex ∧ pos ≤ range.first ∧
    range.first ≤ range.last ∧ range.last ≤ location.last
  order : ranges.Pairwise fun a b => a.last < b.first

theorem remaining_spec (location : Location) (pos : Nat) :
    Inside location pos (remaining location pos) ∧
      ∀ x, Covers (remaining location pos) location.memoryIndex x ↔
        pos ≤ x ∧ x ≤ location.last := by
  unfold remaining
  split_ifs with hle
  · refine ⟨⟨?_, List.pairwise_singleton _ _⟩, fun x => by simp⟩
    intro range hrange
    rw [List.mem_singleton.mp hrange]
    exact ⟨rfl, le_rfl, hle, le_rfl⟩
  · refine ⟨⟨by simp, List.Pairwise.nil⟩, fun x => ?_⟩
    simp only [not_covers_nil, false_iff]
    omega

/-- The front part that a covered range leaves of the location. -/
theorem front_spec (location : Location) {pos first : Nat} (hfirst : first ≤ location.last) :
    Inside location pos
        (if first > pos then [{ location with first := pos, last := first - 1 }] else []) ∧
      ∀ x, Covers (if first > pos then [{ location with first := pos, last := first - 1 }] else [])
        location.memoryIndex x ↔ pos ≤ x ∧ x < first := by
  split_ifs with hlt
  · refine ⟨⟨?_, List.pairwise_singleton _ _⟩, fun x => ?_⟩
    · intro range hrange
      rw [List.mem_singleton.mp hrange]
      exact ⟨rfl, le_rfl, by simp only; omega, by simp only; omega⟩
    · simp only [covers_cons, not_covers_nil, or_false, true_and]
      omega
  · refine ⟨⟨by simp, List.Pairwise.nil⟩, fun x => ?_⟩
    simp only [not_covers_nil, false_iff]
    omega

/-- What is reported of a location, from `pos` on: the part that is not covered. -/
def Reported (location : Location) (pos : Nat) (coverage ranges : List Location) : Prop :=
  Inside location pos ranges ∧ ∀ x, Covers ranges location.memoryIndex x ↔
    (pos ≤ x ∧ x ≤ location.last) ∧ ¬ Covers coverage location.memoryIndex x

section

variable {location covered : Location} {pos : Nat} {coverage ranges : List Location}

/-- What follows in the memory starts behind the covered range. -/
theorem behind_of_covers (hcanonical : Canonical (covered :: coverage))
    (hahead : Ahead location pos (covered :: coverage)) {x : Nat}
    (hcovers : Covers coverage location.memoryIndex x) :
    covered.memoryIndex = location.memoryIndex ∧ covered.last + 1 < x := by
  obtain ⟨⟨-, hapart⟩, -⟩ := Canonical.cons_iff.mp hcanonical
  obtain ⟨hhead, -⟩ := List.forall_mem_cons.mp hahead
  obtain ⟨other, hother, hmemory, hx, -⟩ := hcovers
  have hgap := hapart other hother
  unfold Apart at hgap
  omega

/-- The covered range is behind the location. -/
theorem reported_behind (hcanonical : Canonical (covered :: coverage))
    (hahead : Ahead location pos (covered :: coverage))
    (hbehind : ¬ (covered.memoryIndex = location.memoryIndex ∧ covered.first ≤ location.last)) :
    Reported location pos (covered :: coverage) (remaining location pos) := by
  obtain ⟨⟨hvalid, -⟩, -⟩ := Canonical.cons_iff.mp hcanonical
  obtain ⟨hremaining, hcovers⟩ := remaining_spec location pos
  refine ⟨hremaining, fun x => ?_⟩
  rw [hcovers, covers_cons]
  have hx := fun h => behind_of_covers hcanonical hahead (x := x) h
  constructor
  · intro hrange
    refine ⟨hrange, ?_⟩
    rintro (h' | h')
    · omega
    · have := hx h'
      unfold Location.Valid at hvalid
      omega
  · exact fun h => h.1

/-- The covered range reaches to the end of the location. -/
theorem reported_last (hcanonical : Canonical (covered :: coverage))
    (hahead : Ahead location pos (covered :: coverage))
    (hmemory : covered.memoryIndex = location.memoryIndex) (hfirst : covered.first ≤ location.last)
    (hlast : location.last ≤ covered.last) :
    Reported location pos (covered :: coverage)
      (if covered.first > pos then [{ location with first := pos, last := covered.first - 1 }]
        else []) := by
  obtain ⟨⟨hvalid, -⟩, -⟩ := Canonical.cons_iff.mp hcanonical
  obtain ⟨hfront, hfrontCovers⟩ := @front_spec location pos covered.first hfirst
  refine ⟨hfront, fun x => ?_⟩
  rw [hfrontCovers, covers_cons]
  have hx := fun h => behind_of_covers hcanonical hahead (x := x) h
  constructor
  · intro h
    refine ⟨by omega, ?_⟩
    rintro (h' | h')
    · omega
    · have := hx h'
      unfold Location.Valid at hvalid
      omega
  · rintro ⟨hrange, hnot⟩
    by_contra hcontra
    exact hnot (Or.inl ⟨hmemory, by omega, by omega⟩)

/-- The sweep goes on behind the covered range: the part in front of it is reported, and then what
the rest of the sweep reports. -/
theorem reported_between (hcanonical : Canonical (covered :: coverage))
    (hahead : Ahead location pos (covered :: coverage))
    (hmemory : covered.memoryIndex = location.memoryIndex) (hfirst : covered.first ≤ location.last)
    (hrest : Reported location (covered.last + 1) coverage ranges) :
    Reported location pos (covered :: coverage)
      ((if covered.first > pos then [{ location with first := pos, last := covered.first - 1 }]
        else []) ++ ranges) := by
  obtain ⟨⟨hvalid, -⟩, -⟩ := Canonical.cons_iff.mp hcanonical
  obtain ⟨hhead, -⟩ := List.forall_mem_cons.mp hahead
  obtain ⟨hfront, hfrontCovers⟩ := @front_spec location pos covered.first hfirst
  obtain ⟨hrest, hrestCovers⟩ := hrest
  have hposle := hhead.2 hmemory
  unfold Location.Valid at hvalid
  refine ⟨⟨?_, ?_⟩, fun x => ?_⟩
  · intro range hrange
    rcases List.mem_append.mp hrange with hrange | hrange
    · exact hfront.inside range hrange
    · have := hrest.inside range hrange
      omega
  · refine List.pairwise_append.mpr ⟨hfront.order, hrest.order, fun a ha b hb => ?_⟩
    have hb' := hrest.inside b hb
    split_ifs at ha with hbefore
    · rw [List.mem_singleton.mp ha]
      simp only
      omega
    · cases ha
  · rw [covers_append, hfrontCovers, hrestCovers, covers_cons]
    have hx := fun h => behind_of_covers hcanonical hahead (x := x) h
    constructor
    · rintro (h | ⟨hrange, hnot⟩)
      · refine ⟨by omega, ?_⟩
        rintro (h' | h')
        · omega
        · have := hx h'
          omega
      · refine ⟨by omega, ?_⟩
        rintro (h' | h')
        · omega
        · exact hnot h'
    · rintro ⟨hrange, hnot⟩
      by_cases hbefore : x < covered.first
      · exact Or.inl ⟨hrange.1, hbefore⟩
      · refine Or.inr ⟨⟨?_, hrange.2⟩, fun h' => hnot (Or.inr h')⟩
        by_contra hcontra
        exact hnot (Or.inl ⟨hmemory, by omega, by omega⟩)

end

/-- **One location.**  What is reported is the part from `pos` on that is not covered. -/
theorem scan_spec {location : Location} {pos : Nat} {coverage : List Location}
    (hlocation : location.Valid) (hcoverage : Canonical coverage)
    (hahead : Ahead location pos coverage) :
    Inside location pos (scan location pos coverage) ∧
      ∀ x, Covers (scan location pos coverage) location.memoryIndex x ↔
        (pos ≤ x ∧ x ≤ location.last) ∧ ¬ Covers coverage location.memoryIndex x := by
  induction coverage generalizing pos with
  | nil =>
      obtain ⟨hinside, hcovers⟩ := remaining_spec location pos
      exact ⟨hinside, fun x => by simp [scan, hcovers]⟩
  | cons covered coverage ih =>
      obtain ⟨⟨hvalid, hapart⟩, hrest⟩ := Canonical.cons_iff.mp hcoverage
      obtain ⟨hhead, htail⟩ := List.forall_mem_cons.mp hahead
      unfold scan
      by_cases hinside : covered.memoryIndex = location.memoryIndex ∧
          covered.first ≤ location.last
      · rw [if_pos hinside]
        by_cases hlast : covered.last ≥ location.last
        · have hempty : remaining location (next location.last) = [] := by
            rw [next_eq hlocation, remaining, if_neg (by omega)]
          rw [if_pos hlast, hempty, List.append_nil]
          exact reported_last hcoverage hahead hinside.1 hinside.2 hlast
        · -- the sweep goes on behind the covered range
          have hpos : max pos (next covered.last) = covered.last + 1 := by
            rw [next_eq hvalid]
            have := hhead.2 hinside.1
            omega
          have hbehind : Ahead location (covered.last + 1) coverage := by
            intro other hother
            refine ⟨(htail other hother).1, fun hmemory => ?_⟩
            have hgap := hapart other hother
            have hother := (hrest.valid other hother).1
            unfold Apart at hgap
            omega
          rw [if_neg hlast, hpos]
          exact reported_between hcoverage hahead hinside.1 hinside.2 (ih hrest hbehind)
      · rw [if_neg hinside]
        exact reported_behind hcoverage hahead hinside

theorem Canonical.dropWhile {coverage : List Location} (hcoverage : Canonical coverage)
    (location : Location) : Canonical (coverage.dropWhile (endsBefore location)) :=
  ⟨hcoverage.apart.sublist (List.dropWhile_sublist _),
    fun other hother => hcoverage.valid other ((List.dropWhile_sublist _).subset hother)⟩

/-- What the loop over `j` stops at is ahead. -/
theorem ahead_dropWhile {coverage : List Location} (hcoverage : Canonical coverage)
    (location : Location) :
    Ahead location location.first (coverage.dropWhile (endsBefore location)) := by
  induction coverage with
  | nil => exact fun _ h => absurd h List.not_mem_nil
  | cons covered coverage ih =>
      obtain ⟨⟨hvalid, hapart⟩, hrest⟩ := Canonical.cons_iff.mp hcoverage
      rw [List.dropWhile_cons]
      split_ifs with hends
      · exact ih hrest
      · simp only [endsBefore, decide_eq_true_eq] at hends
        have hhead : location.memoryIndex ≤ covered.memoryIndex ∧
            (covered.memoryIndex = location.memoryIndex → location.first ≤ covered.last) := by
          omega
        refine List.forall_mem_cons.mpr ⟨hhead, fun other hother => ?_⟩
        have hgap := hapart other hother
        have hother := (hrest.valid other hother).1
        unfold Apart at hgap
        omega

/-- What the loop over `j` passes covers nothing of the location and of those behind it. -/
theorem covers_dropWhile {location other : Location} (coverage : List Location)
    (hother : other = location ∨ Apart location other) {x : Nat}
    (hx : other.first ≤ x ∧ x ≤ other.last) (hlocation : location.first ≤ location.last) :
    Covers (coverage.dropWhile (endsBefore location)) other.memoryIndex x ↔
      Covers coverage other.memoryIndex x := by
  induction coverage with
  | nil => exact Iff.rfl
  | cons covered coverage ih =>
      rw [List.dropWhile_cons]
      split_ifs with hends
      · rw [ih, covers_cons]
        simp only [endsBefore, decide_eq_true_eq] at hends
        have hnot : ¬ (covered.memoryIndex = other.memoryIndex ∧ covered.first ≤ x ∧
            x ≤ covered.last) := by
          rcases hother with rfl | hapart
          · omega
          · unfold Apart at hapart
            omega
        exact (or_iff_right hnot).symm
      · exact Iff.rfl

/-- **The sweep.**  The ranges are in order, each is part of a location, and they cover the
difference of both sets. -/
theorem uncoveredRanges_spec {source coverage : List Location} (hsource : Canonical source)
    (hcoverage : Canonical coverage) :
    (uncoveredRanges source coverage).Pairwise InOrder ∧
      (∀ range ∈ uncoveredRanges source coverage, range.first ≤ range.last ∧
        ∃ location ∈ source, range.memoryIndex = location.memoryIndex ∧
          location.first ≤ range.first ∧ range.last ≤ location.last) ∧
      ∀ memoryIndex x, Covers (uncoveredRanges source coverage) memoryIndex x ↔
        Covers source memoryIndex x ∧ ¬ Covers coverage memoryIndex x := by
  induction source generalizing coverage with
  | nil => exact ⟨List.Pairwise.nil, by simp [uncoveredRanges], by simp [uncoveredRanges]⟩
  | cons location source ih =>
      obtain ⟨⟨hlocation, hapart⟩, hsource⟩ := Canonical.cons_iff.mp hsource
      have hdropped := hcoverage.dropWhile location
      obtain ⟨hscan, hscanCovers⟩ :=
        scan_spec hlocation hdropped (ahead_dropWhile hcoverage location)
      obtain ⟨horder, hparts, hcovers⟩ := ih hsource hdropped
      unfold uncoveredRanges
      refine ⟨?_, ?_, fun memoryIndex x => ?_⟩
      · refine List.pairwise_append.mpr ⟨?_, horder, fun a ha b hb => ?_⟩
        · refine hscan.order.imp_of_mem fun {a b} ha hb hlt => Or.inr ⟨?_, hlt⟩
          exact (hscan.inside a ha).1.trans (hscan.inside b hb).1.symm
        · obtain ⟨-, other, hother, hb⟩ := hparts b hb
          have ha := hscan.inside a ha
          have hgap := hapart other hother
          unfold Apart at hgap
          unfold InOrder
          omega
      · intro range hrange
        rcases List.mem_append.mp hrange with hrange | hrange
        · have hinside := hscan.inside range hrange
          exact ⟨hinside.2.2.1, location, List.mem_cons_self, hinside.1, hinside.2.1,
            hinside.2.2.2⟩
        · obtain ⟨hvalid, other, hother, hpart⟩ := hparts range hrange
          exact ⟨hvalid, other, List.mem_cons_of_mem _ hother, hpart⟩
      · have hfirst : Covers (scan location location.first
            (coverage.dropWhile (endsBefore location))) memoryIndex x ↔
            (location.memoryIndex = memoryIndex ∧ location.first ≤ x ∧ x ≤ location.last) ∧
              ¬ Covers coverage memoryIndex x := by
          by_cases hmemory : location.memoryIndex = memoryIndex
          · subst hmemory
            rw [hscanCovers]
            simp only [true_and]
            refine and_congr_right fun hx => not_congr ?_
            exact covers_dropWhile coverage (Or.inl rfl) hx hlocation.1
          · simp only [hmemory, false_and, iff_false]
            rintro ⟨range, hrange, hsame, -⟩
            exact hmemory ((hscan.inside range hrange).1.symm.trans hsame)
        have hrest : Covers source memoryIndex x ∧
            ¬ Covers (coverage.dropWhile (endsBefore location)) memoryIndex x ↔
            Covers source memoryIndex x ∧ ¬ Covers coverage memoryIndex x := by
          refine and_congr_right fun hsourceCovers => not_congr ?_
          obtain ⟨other, hother, rfl, hx⟩ := hsourceCovers
          exact covers_dropWhile coverage (Or.inr (hapart other hother)) hx hlocation.1
        rw [covers_append, hfirst, hcovers, hrest, covers_cons, or_and_right]

/-- Nothing is reported just if the first list covers nothing else. -/
theorem uncoveredRanges_isEmpty_iff {source coverage : List Location} (hsource : Canonical source)
    (hcoverage : Canonical coverage) :
    (uncoveredRanges source coverage).isEmpty = true ↔
      ∀ memoryIndex x, Covers source memoryIndex x → Covers coverage memoryIndex x := by
  obtain ⟨-, hparts, hcovers⟩ := uncoveredRanges_spec hsource hcoverage
  rw [List.isEmpty_iff]
  constructor
  · intro hnil memoryIndex x hx
    by_contra hnot
    have hreported := (hcovers memoryIndex x).mpr ⟨hx, hnot⟩
    rw [hnil] at hreported
    exact not_covers_nil memoryIndex x hreported
  · intro hsub
    refine List.eq_nil_iff_forall_not_mem.mpr fun range hrange => ?_
    have hreported : Covers (uncoveredRanges source coverage) range.memoryIndex range.first :=
      ⟨range, hrange, rfl, le_rfl, (hparts range hrange).1⟩
    obtain ⟨hx, hnot⟩ := (hcovers _ _).mp hreported
    exact hnot (hsub _ _ hx)

/-- **The comparison.**  For places whose ranges end in front of the last 64-bit number: the merged
ranges of each memory are in order with gaps between them and cover what the places cover; what is
reported for the first list is in order and covers the difference of both; and the comparison says
that two traces are the same just if they cover the same bytes. -/
theorem coverage_comparison (sorting : Sorting Location.Before) {a b : List Location}
    (ha : ∀ location ∈ a, location.Valid) (hb : ∀ location ∈ b, location.Valid) :
    (Canonical (collectMarkingCoverage sorting a) ∧
      ∀ memoryIndex x, Covers (collectMarkingCoverage sorting a) memoryIndex x ↔
        Covers a memoryIndex x) ∧
    ((uncoveredRanges (collectMarkingCoverage sorting a)
        (collectMarkingCoverage sorting b)).Pairwise InOrder ∧
      (∀ range ∈ uncoveredRanges (collectMarkingCoverage sorting a)
        (collectMarkingCoverage sorting b), range.first ≤ range.last) ∧
      ∀ memoryIndex x, Covers (uncoveredRanges (collectMarkingCoverage sorting a)
          (collectMarkingCoverage sorting b)) memoryIndex x ↔
        Covers a memoryIndex x ∧ ¬ Covers b memoryIndex x) ∧
    ∀ getFunctionName types packA packB result,
      markingLocations getFunctionName types packA = some a →
      markingLocations getFunctionName types packB = some b →
      comparePackedFileMarkingCoverage sorting getFunctionName types packA packB = some result →
      (result.identical = true ↔
        ∀ memoryIndex x, Covers a memoryIndex x ↔ Covers b memoryIndex x) := by
  obtain ⟨hcanonicalA, hcoversA⟩ := collectMarkingCoverage_spec sorting ha
  obtain ⟨hcanonicalB, hcoversB⟩ := collectMarkingCoverage_spec sorting hb
  obtain ⟨horder, hparts, hcovers⟩ := uncoveredRanges_spec hcanonicalA hcanonicalB
  refine ⟨⟨hcanonicalA, hcoversA⟩, ⟨horder, fun range hrange => (hparts range hrange).1, ?_⟩, ?_⟩
  · intro memoryIndex x
    rw [hcovers, hcoversA, hcoversB]
  · intro getFunctionName types packA packB result hpackA hpackB hresult
    rw [comparePackedFileMarkingCoverage, hpackA, hpackB] at hresult
    cases hresult
    simp only [appendUncoveredMarkingRanges, Bool.true_and, Bool.and_eq_true,
      uncoveredRanges_isEmpty_iff hcanonicalA hcanonicalB,
      uncoveredRanges_isEmpty_iff hcanonicalB hcanonicalA, hcoversA, hcoversB]
    exact ⟨fun h memoryIndex x => ⟨h.1 memoryIndex x, h.2 memoryIndex x⟩,
      fun h => ⟨fun memoryIndex x => (h memoryIndex x).mp,
        fun memoryIndex x => (h memoryIndex x).mpr⟩⟩

/-- A place as a triple, in lexicographic order. -/
def locationKey (location : Location) : ℕ ×ₗ ℕ ×ₗ ℕ :=
  toLex (location.memoryIndex, toLex (location.first, location.last))

theorem locationKey_lt {a b : Location} (h : a.Before b) : locationKey a < locationKey b := by
  unfold Location.Before at h
  simp only [locationKey, Prod.Lex.toLex_lt_toLex]
  split_ifs at h <;> omega

/-- An insertion sort of places. -/
def locationSorting : Sorting Location.Before :=
  (Sorting.byKey locationKey).weaken fun _ _ => locationKey_lt

instance (location : Location) : Decidable location.Valid :=
  inferInstanceAs (Decidable (_ ∧ _))

/-- Two addresses side by side, and a byte in another memory. -/
def threePlaces : List Location := [⟨1, 5, 5⟩, ⟨0, 8, 15⟩, ⟨0, 0, 7⟩]

theorem coverage_comparison_threePlaces :
    (∀ memoryIndex x, Covers (uncoveredRanges (collectMarkingCoverage locationSorting threePlaces)
        (collectMarkingCoverage locationSorting [⟨0, 4, 11⟩])) memoryIndex x ↔
      Covers threePlaces memoryIndex x ∧ ¬ Covers [⟨0, 4, 11⟩] memoryIndex x) ∧
    uncoveredRanges (collectMarkingCoverage locationSorting threePlaces)
        (collectMarkingCoverage locationSorting [⟨0, 4, 11⟩]) =
      [⟨0, 0, 3⟩, ⟨0, 12, 15⟩, ⟨1, 5, 5⟩] :=
  ⟨(coverage_comparison locationSorting (by decide) (by decide)).2.1.2.2, by decide⟩

end MarkingCoverage
end Lavatube
