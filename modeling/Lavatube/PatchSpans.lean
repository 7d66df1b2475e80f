import Lavatube.MarkedOffsets
import Lavatube.PatchStream

/-!
# Changed spans and emitted blocks

Two scans look for the bytes of a window that have changed.  `collect_patch_spans` reports spans:
a span begins at a changed byte and is followed in words of 8 bytes from there.  `write_patch`
emits blocks of 8 bytes, counted from the start of its window.  Both cover every changed byte, but
they round up to different bytes around it.

* `Scanned` — the bytes of the spans, told by where the words of the scan begin.
* `rangeOverlapsAny_iff` — a range meets a span exactly when it has such a byte.
* `Run` — a run of changed blocks as long as possible.
* `inSpans_patchLoopSpans_iff` — `write_patch` emits the runs, each up to what a 32-bit counter
  leaves of its length.
-/

namespace Lavatube
namespace PatchSpans

open ByteMemory Patch PatchStream MarkedOffsets RangeTracking

/-! ## The spans -/

/-- Positions at which `collect_patch_spans` compares a word after a changed byte. -/
inductive Checkpoint (orig chng : Memory) (size : Nat) : Nat → Prop where
  | first {start : Nat} : (∀ i < start, orig i = chng i) → start < size →
      orig start ≠ chng start → Checkpoint orig chng size start
  | next {word : Nat} : Checkpoint orig chng size word → word + 8 ≤ size →
      same orig chng word 8 = false → Checkpoint orig chng size (word + 8)
  | resume {word start : Nat} : Checkpoint orig chng size word → word + 8 ≤ size →
      same orig chng word 8 = true → (∀ i, word ≤ i → i < start → orig i = chng i) →
      word ≤ start → start < size → orig start ≠ chng start → Checkpoint orig chng size start

/-- Position `i` has changed, or it is in a compared word that has. -/
def Scanned (orig chng : Memory) (size i : Nat) : Prop :=
  orig i ≠ chng i ∨
    ∃ word, Checkpoint orig chng size word ∧ word + 8 ≤ size ∧
      same orig chng word 8 = false ∧ word ≤ i ∧ i < word + 8

/-- The number of bytes that `collect_patch_spans` returns. -/
def changedBytes (spans : List Range) : Nat :=
  (spans.map fun span => span.last + 1 - span.first).sum

/-- One round of the main loop: it begins at `pos`, the span at `start`, and `count` words of the
span have changed. -/
structure SpanRound (orig chng : Memory) (size pos start count stop : Nat) : Prop where
  low : pos ≤ start
  equal : ∀ i, pos ≤ i → i < start → orig i = chng i
  differs : orig start ≠ chng start
  words : ∀ k < count, start + k * 8 + 8 ≤ size ∧ same orig chng (start + k * 8) 8 = false
  wordsEnd : start + count * 8 + 8 ≤ size →
    stop = start + count * 8 ∧ same orig chng stop 8 = true
  inside : start + count * 8 ≤ stop ∧ stop ≤ size
  tail : ∀ i, start + count * 8 ≤ i → i < stop → orig i ≠ chng i
  stopped : stop < size → orig stop = chng stop
  progress : start < stop

section

variable {orig chng : Memory} {size rounds pos start count stop i word : Nat}

theorem same_one_iff : same orig chng pos 1 = true ↔ orig pos = chng pos := by
  rw [same_iff]
  constructor
  · intro hall
    exact hall pos le_rfl (by omega)
  · intro heq i hlow hhigh
    rwa [show i = pos by omega]

/-- A scan loop stays in the window. -/
theorem advance_le {holds : Nat → Bool} {stride : Nat} (hpos : pos ≤ size) :
    advance holds stride size rounds pos ≤ size := by
  induction rounds generalizing pos with
  | zero => exact hpos
  | succ rounds ih =>
      unfold advance
      split
      · case _ hnext => exact ih hnext.1
      · exact hpos

variable (orig chng rounds) in
/-- **One round of `collect_patch_spans`.**  Either nothing of the rest has changed, or the round
gives one span and the next one begins behind it. -/
theorem collectPatchSpansLoop_succ (hpos : pos < size) :
    (collectPatchSpansLoop orig chng size (rounds + 1) pos = [] ∧
        ∀ i, pos ≤ i → i < size → orig i = chng i) ∨
      ∃ start count stop, SpanRound orig chng size pos start count stop ∧
        collectPatchSpansLoop orig chng size (rounds + 1) pos =
          ⟨start, stop - 1⟩ :: collectPatchSpansLoop orig chng size rounds stop := by
  rw [collectPatchSpansLoop, if_pos hpos]
  simp only
  -- the words and then the bytes in front of the span
  have hword : ∀ i, pos ≤ i → i < advance (fun pos => same orig chng pos 8) 8 size size pos →
      orig i = chng i := by
    intro i hlow hhigh
    exact advance_equal (by omega) (by decide) hlow hhigh
  have hwordLow : pos ≤ advance (fun pos => same orig chng pos 8) 8 size size pos :=
    le_advance (by omega)
  have hwordHigh : advance (fun pos => same orig chng pos 8) 8 size size pos ≤ size :=
    advance_le hpos.le
  generalize advance (fun pos => same orig chng pos 8) 8 size size pos = first at *
  have hequal : ∀ i, first ≤ i →
      i < advance (fun pos => same orig chng pos 1) 1 size size first → orig i = chng i := by
    intro i hlow hhigh
    exact advance_equal (by omega) (by decide) hlow hhigh
  have hstartLow : first ≤ advance (fun pos => same orig chng pos 1) 1 size size first :=
    le_advance (by omega)
  have hstartHigh : advance (fun pos => same orig chng pos 1) 1 size size first ≤ size :=
    advance_le hwordHigh
  have hdiffers : advance (fun pos => same orig chng pos 1) 1 size size first < size →
      same orig chng (advance (fun pos => same orig chng pos 1) 1 size size first) 1 = false :=
    fun hroom => advance_differs (by omega) hroom
  generalize advance (fun pos => same orig chng pos 1) 1 size size first = start at *
  have hfront : ∀ i, pos ≤ i → i < start → orig i = chng i := by
    intro i hlow hhigh
    by_cases hi : i < first
    · exact hword i hlow hi
    · exact hequal i (by omega) hhigh
  split
  · case _ hnone =>
      exact Or.inl ⟨rfl, fun i hlow hhigh => hfront i hlow (by omega)⟩
  · case _ hsome =>
      -- the words and then the bytes of the span
      have hwordsHigh : advance (fun pos => !same orig chng pos 8) 8 size size start ≤ size :=
        advance_le hstartHigh
      have hroom : size < start + size * 8 + 8 := by omega
      obtain ⟨count, hcount, hwords, hwordsEnd⟩ :=
        advance_spec (fun pos => !same orig chng pos 8) 8 size size start hroom
      rw [hcount] at hwordsHigh ⊢
      obtain ⟨bytes, hbytes, htail, htailEnd⟩ :=
        advance_spec (fun pos => !same orig chng pos 1) 1 size size (start + count * 8) (by omega)
      have hstopHigh : advance (fun pos => !same orig chng pos 1) 1 size size (start + count * 8) ≤
          size := advance_le hwordsHigh
      rw [hbytes, Nat.mul_one] at hstopHigh ⊢
      simp only [Bool.not_eq_eq_eq_not, Bool.not_true, Bool.not_false, Nat.mul_one]
        at hwords hwordsEnd htail htailEnd
      have htailNe : ∀ i, start + count * 8 ≤ i → i < start + count * 8 + bytes →
          orig i ≠ chng i := by
        intro i hlow hhigh heq
        have hfalse := htail (i - (start + count * 8)) (by omega)
        rw [Nat.add_sub_cancel' hlow, same_one_iff.mpr heq] at hfalse
        cases hfalse
      have hstart : orig start ≠ chng start := by
        intro heq
        have hfalse := hdiffers (by omega)
        rw [same_one_iff.mpr heq] at hfalse
        cases hfalse
      have hstopped : start + count * 8 + bytes < size →
          orig (start + count * 8 + bytes) = chng (start + count * 8 + bytes) :=
        fun hlt => same_one_iff.mp (htailEnd (by omega))
      refine Or.inr ⟨start, count, start + count * 8 + bytes, ⟨by omega, hfront, hstart,
        fun k hk => ⟨by omega, hwords k hk⟩, fun hfits => ?_, ⟨by omega, hstopHigh⟩, htailNe,
        hstopped, ?_⟩, rfl⟩
      · -- an equal word ends the span, and its first byte is equal
        have hend := hwordsEnd hfits
        have hzero : bytes = 0 := by
          by_contra hne
          exact htailNe (start + count * 8) le_rfl (by omega)
            ((same_iff _ _ _ _).mp hend _ le_rfl (by omega))
        subst hzero
        exact ⟨rfl, hend⟩
      · by_contra hle
        have hstop : start + count * 8 + bytes = start := by omega
        rw [hstop] at hstopped
        exact hstart (hstopped (by omega))

/-- The spans of the main loop are not empty, lie in the rest of the window, and are sorted. -/
theorem collectPatchSpansLoop_ordered (hrounds : size ≤ pos + rounds) :
    (∀ span ∈ collectPatchSpansLoop orig chng size rounds pos,
        pos ≤ span.first ∧ span.first ≤ span.last ∧ span.last < size) ∧
      (collectPatchSpansLoop orig chng size rounds pos).Pairwise
        fun left right => left.last < right.first := by
  induction rounds generalizing pos with
  | zero => exact ⟨fun span hspan => absurd hspan List.not_mem_nil, List.Pairwise.nil⟩
  | succ rounds ih =>
      by_cases hpos : pos < size
      · rcases collectPatchSpansLoop_succ orig chng rounds hpos with
          ⟨hnone, -⟩ | ⟨start, count, stop, hround, hloop⟩
        · rw [hnone]
          exact ⟨fun span hspan => absurd hspan List.not_mem_nil, List.Pairwise.nil⟩
        · obtain ⟨hrest, hordered⟩ := ih (show size ≤ stop + rounds by
            have := hround.low
            have := hround.progress
            omega)
          have hlow := hround.low
          have hprogress := hround.progress
          have hinside := hround.inside
          rw [hloop]
          refine ⟨fun span hspan => ?_, List.pairwise_cons.mpr ⟨fun span hspan => ?_, hordered⟩⟩
          · rcases List.mem_cons.mp hspan with rfl | hspan
            · exact ⟨hlow, by simp only; omega, by simp only; omega⟩
            · have := hrest span hspan
              exact ⟨by omega, this.2⟩
          · have := hrest span hspan
            simp only
            omega
      · unfold collectPatchSpansLoop
        rw [if_neg hpos]
        exact ⟨fun span hspan => absurd hspan List.not_mem_nil, List.Pairwise.nil⟩

/-- The words of a span are compared one after the other. -/
theorem SpanRound.checkpoint (hround : SpanRound orig chng size pos start count stop)
    (hstart : start + 8 ≤ size → Checkpoint orig chng size start) {k : Nat} (hk : k ≤ count)
    (hfits : start + 8 ≤ size) : Checkpoint orig chng size (start + k * 8) := by
  induction k with
  | zero =>
      rw [Nat.zero_mul, Nat.add_zero]
      exact hstart hfits
  | succ k ih =>
      obtain ⟨hroom, hdiffers⟩ := hround.words k (by omega)
      rw [show start + (k + 1) * 8 = start + k * 8 + 8 by omega]
      exact (ih (by omega)).next hroom hdiffers

/-- The bytes of the spans are scanned. -/
theorem scanned_of_mem (hrounds : size ≤ pos + rounds)
    (hbegin : ∀ start, pos ≤ start → start + 8 ≤ size → orig start ≠ chng start →
      (∀ i, pos ≤ i → i < start → orig i = chng i) → Checkpoint orig chng size start)
    {span : Range} (hspan : span ∈ collectPatchSpansLoop orig chng size rounds pos)
    (hfirst : span.first ≤ i) (hlast : i ≤ span.last) : Scanned orig chng size i := by
  induction rounds generalizing pos with
  | zero => exact absurd hspan List.not_mem_nil
  | succ rounds ih =>
      by_cases hpos : pos < size
      · rcases collectPatchSpansLoop_succ orig chng rounds hpos with
          ⟨hnone, -⟩ | ⟨start, count, stop, hround, hloop⟩
        · rw [hnone] at hspan
          exact absurd hspan List.not_mem_nil
        · rw [hloop] at hspan
          have hlow := hround.low
          have hprogress := hround.progress
          have hcheckpoint : start + 8 ≤ size → Checkpoint orig chng size start :=
            fun hfits => hbegin start hlow hfits hround.differs hround.equal
          rcases List.mem_cons.mp hspan with rfl | hspan
          · simp only at hfirst hlast
            by_cases hword : i < start + count * 8
            · -- in one of the words
              obtain ⟨hroom, hdiffers⟩ := hround.words ((i - start) / 8) (by omega)
              exact Or.inr ⟨start + (i - start) / 8 * 8,
                hround.checkpoint hcheckpoint (by omega) (by omega), hroom, hdiffers, by omega,
                by omega⟩
            · exact Or.inl (hround.tail i (by omega) (by omega))
          · refine ih (by omega) (fun next hnext hfits hdiffers hequal => ?_) hspan
            -- the next span begins at the first changed byte behind an equal word
            have hinside := hround.inside
            obtain ⟨hstop, hsame⟩ := hround.wordsEnd (by omega)
            subst hstop
            exact (hround.checkpoint hcheckpoint le_rfl (by omega)).resume (by omega) hsame hequal
              hnext (by omega) hdiffers
      · unfold collectPatchSpansLoop at hspan
        rw [if_neg hpos] at hspan
        exact absurd hspan List.not_mem_nil

/-- Every word that is compared is one of a round of the main loop. -/
theorem Checkpoint.round (h : Checkpoint orig chng size word) :
    ∃ rounds pos start count stop k, SpanRound orig chng size pos start count stop ∧
      size ≤ stop + rounds ∧ k ≤ count ∧ word = start + k * 8 ∧
      (⟨start, stop - 1⟩ :: collectPatchSpansLoop orig chng size rounds stop) ⊆
        collectPatchSpansLoop orig chng size size 0 := by
  -- the round that begins where all is equal up to the first changed byte
  have hbegin : ∀ {rounds pos start : Nat}, size ≤ pos + (rounds + 1) → pos ≤ start →
      start < size → (∀ i, pos ≤ i → i < start → orig i = chng i) → orig start ≠ chng start →
      collectPatchSpansLoop orig chng size (rounds + 1) pos ⊆
        collectPatchSpansLoop orig chng size size 0 →
      ∃ rounds pos start' count stop k, SpanRound orig chng size pos start' count stop ∧
        size ≤ stop + rounds ∧ k ≤ count ∧ start = start' + k * 8 ∧
        (⟨start', stop - 1⟩ :: collectPatchSpansLoop orig chng size rounds stop) ⊆
          collectPatchSpansLoop orig chng size size 0 := by
    intro rounds pos start hrounds hlow hhigh hequal hdiffers hsub
    rcases collectPatchSpansLoop_succ orig chng rounds
        (show pos < size by omega) with ⟨-, hall⟩ | ⟨start', count, stop, hround, hloop⟩
    · exact absurd (hall start hlow hhigh) hdiffers
    · have hsame : start = start' := by
        refine le_antisymm (not_lt.mp fun hlt => ?_) (not_lt.mp fun hlt => ?_)
        · exact hround.differs (hequal start' hround.low hlt)
        · exact hdiffers (hround.equal start hlow hlt)
      rw [hloop] at hsub
      have := hround.low
      have := hround.progress
      exact ⟨rounds, pos, start', count, stop, 0, hround, by omega, Nat.zero_le _, by omega, hsub⟩
  induction h with
  | @first start hequal hhigh hdiffers =>
      obtain ⟨rounds, rfl⟩ : ∃ rounds, size = rounds + 1 := ⟨size - 1, by omega⟩
      exact hbegin (by omega) (Nat.zero_le _) hhigh (fun i _ hi => hequal i hi) hdiffers
        (List.Subset.refl _)
  | @next word _ hfits hdiffers ih =>
      obtain ⟨rounds, pos, start, count, stop, k, hround, hrounds, hk, rfl, hsub⟩ := ih
      refine ⟨rounds, pos, start, count, stop, k + 1, hround, hrounds, ?_, by omega, hsub⟩
      by_contra hlast
      obtain rfl : k = count := by omega
      obtain ⟨hstop, hsame⟩ := hround.wordsEnd hfits
      rw [hstop, hdiffers] at hsame
      cases hsame
  | @resume word start _ hfits hsame hequal hlow hhigh hdiffers ih =>
      obtain ⟨rounds, pos, start', count, stop, k, hround, hrounds, hk, rfl, hsub⟩ := ih
      obtain rfl : k = count := by
        by_contra hne
        have hfalse := (hround.words k (by omega)).2
        rw [hsame] at hfalse
        cases hfalse
      obtain ⟨hstop, -⟩ := hround.wordsEnd hfits
      obtain ⟨rounds, rfl⟩ : ∃ more, rounds = more + 1 := ⟨rounds - 1, by omega⟩
      rw [← hstop] at hequal hlow
      exact hbegin hrounds hlow hhigh hequal hdiffers
        (List.Subset.trans (List.subset_cons_self ..) hsub)

/-- **The bytes of the spans** are those that are scanned. -/
theorem mem_spans_iff (hi : i < size) :
    (∃ span ∈ collectPatchSpansLoop orig chng size size 0, span.first ≤ i ∧ i ≤ span.last) ↔
      Scanned orig chng size i := by
  have hrounds : size ≤ 0 + size := by omega
  constructor
  · rintro ⟨span, hspan, hfirst, hlast⟩
    refine scanned_of_mem hrounds (fun start _ hfits hdiffers hequal => ?_) hspan hfirst hlast
    exact .first (fun i hi => hequal i (Nat.zero_le _) hi) (by omega) hdiffers
  · rintro (hne | ⟨word, hcheckpoint, hfits, hdiffers, hlow, hhigh⟩)
    · exact exists_span_of_ne hrounds (Nat.zero_le _) hi hne
    · obtain ⟨rounds, pos, start, count, stop, k, hround, -, hk, rfl, hsub⟩ := hcheckpoint.round
      have hlast : k < count := by
        by_contra hge
        obtain rfl : k = count := by omega
        obtain ⟨hstop, hsame⟩ := hround.wordsEnd hfits
        rw [hstop, hdiffers] at hsame
        cases hsame
      have hinside := hround.inside
      exact ⟨_, hsub List.mem_cons_self, by simp only; omega, by simp only; omega⟩

/-! ### The result of `collect_patch_spans` -/

variable {offset : Nat}

/-- The spans are sorted and disjoint, none is empty, and they lie in the window. -/
theorem collectPatchSpans_ordered :
    (∀ span ∈ collectPatchSpans orig chng offset size,
        offset ≤ span.first ∧ span.first ≤ span.last ∧ span.last < offset + size) ∧
      (collectPatchSpans orig chng offset size).Pairwise
        fun left right => left.last < right.first := by
  obtain ⟨hinside, hordered⟩ := @collectPatchSpansLoop_ordered (shift orig offset)
    (shift chng offset) size size 0 (by omega)
  constructor
  · intro span hspan
    obtain ⟨source, hsource, rfl⟩ := List.mem_map.mp hspan
    obtain ⟨-, hne, hlast⟩ := hinside source hsource
    exact ⟨by simp only; omega, by simp only; omega, by simp only; omega⟩
  · refine List.pairwise_map.mpr (hordered.imp fun {left right} hlt => ?_)
    simp only
    omega

/-- **The bytes of the spans.** -/
theorem mem_collectPatchSpans_iff (hlow : offset ≤ i) (hhigh : i < offset + size) :
    (∃ span ∈ collectPatchSpans orig chng offset size, span.first ≤ i ∧ i ≤ span.last) ↔
      Scanned (shift orig offset) (shift chng offset) size (i - offset) := by
  rw [← mem_spans_iff (by omega)]
  unfold collectPatchSpans
  constructor
  · rintro ⟨span, hspan, hfirst, hlast⟩
    obtain ⟨source, hsource, rfl⟩ := List.mem_map.mp hspan
    simp only at hfirst hlast
    exact ⟨source, hsource, by omega, by omega⟩
  · rintro ⟨span, hspan, hfirst, hlast⟩
    exact ⟨_, List.mem_map_of_mem hspan, by simp only; omega, by simp only; omega⟩

/-- A range meets a span exactly when it has a scanned byte. -/
theorem rangeOverlapsAny_iff {first last : Nat} (hle : first ≤ last) :
    rangeOverlapsAny first last (collectPatchSpans orig chng offset size) = true ↔
      ∃ i, first ≤ i ∧ i ≤ last ∧ offset ≤ i ∧ i < offset + size ∧
        Scanned (shift orig offset) (shift chng offset) size (i - offset) := by
  unfold rangeOverlapsAny
  rw [List.any_eq_true]
  constructor
  · rintro ⟨span, hspan, hmeet⟩
    obtain ⟨hleft, hright⟩ := of_decide_eq_true hmeet
    obtain ⟨hoffset, hne, hlast⟩ := collectPatchSpans_ordered.1 span hspan
    have hlow : offset ≤ max first span.first := by omega
    have hhigh : max first span.first < offset + size := by omega
    exact ⟨max first span.first, by omega, by omega, hlow, hhigh,
      (mem_collectPatchSpans_iff hlow hhigh).mp ⟨span, hspan, by omega, by omega⟩⟩
  · rintro ⟨i, hfirst, hlast, hlow, hhigh, hscanned⟩
    obtain ⟨span, hspan, hleft, hright⟩ := (mem_collectPatchSpans_iff hlow hhigh).mpr hscanned
    exact ⟨span, hspan, by rw [decide_eq_true_eq]; omega⟩

/-- `collect_patch_spans` returns zero exactly when it finds no span. -/
theorem changedBytes_eq_zero_iff :
    changedBytes (collectPatchSpans orig chng offset size) = 0 ↔
      collectPatchSpans orig chng offset size = [] := by
  constructor
  · intro hzero
    refine List.eq_nil_iff_forall_not_mem.mpr fun span hspan => ?_
    have hne := (collectPatchSpans_ordered.1 span hspan).2.1
    have hterm := List.sum_eq_zero_iff.mp hzero _ (List.mem_map_of_mem hspan)
    omega
  · intro hnil
    rw [hnil]
    rfl

theorem collectPatchSpans_eq_nil_iff :
    collectPatchSpans orig chng offset size = [] ↔
      ∀ i, offset ≤ i → i < offset + size → orig i = chng i := by
  constructor
  · intro hnil i hlow hhigh
    by_contra hne
    obtain ⟨span, hspan, -⟩ := exists_collectPatchSpans_of_ne hlow hhigh hne
    rw [hnil] at hspan
    exact absurd hspan List.not_mem_nil
  · intro hequal
    refine List.eq_nil_iff_forall_not_mem.mpr fun span hspan => ?_
    obtain ⟨hlow, hne, hhigh⟩ := collectPatchSpans_ordered.1 span hspan
    have hscanned := (mem_collectPatchSpans_iff hlow (by omega)).mp ⟨span, hspan, le_rfl, hne⟩
    have hsame : ∀ k < size, shift orig offset k = shift chng offset k :=
      fun k hk => hequal (offset + k) (by omega) (by omega)
    rcases hscanned with hdiffers | ⟨word, -, hfits, hdiffers, -⟩
    · exact hdiffers (hsame _ (by omega))
    · obtain ⟨k, -, hk, hdiffers⟩ := (same_eq_false_iff _ _ _ _).mp hdiffers
      exact hdiffers (hsame k (by omega))

/-- **The two scans agree about whether anything has changed.** -/
theorem changedBytes_eq_zero_iff_findPatchStart :
    changedBytes (collectPatchSpans orig chng offset size) = 0 ↔
      findPatchStart orig chng offset size = size := by
  rw [changedBytes_eq_zero_iff, collectPatchSpans_eq_nil_iff, findPatchStart_eq_size_iff]

/-! ## The emitted blocks -/

/-- The main loop of `write_patch`, told by the place and the length of what it emits. -/
def patchLoopSpans (chng : Memory) : Nat → Memory → Nat → Nat → List (Nat × Nat)
  | 0, _, _, _ => []
  | rounds + 1, orig, pos, left =>
      if left = 0 then
        []
      else
        let identical := findPatchStart orig chng pos left
        let start := pos + identical
        let diff := copyDiffering chng left orig start 0 (left - identical)
        let tail := copyTail chng diff.1 diff.2.1 diff.2.2.1 diff.2.2.2
        let c := tail.2.1
        let rest := patchLoopSpans chng rounds tail.1 diff.2.1 tail.2.2
        if c ≠ 0 then (start, c) :: rest else rest

/-- What `write_patch` emits are the bytes at these places. -/
theorem patchLoop_payloads (chng : Memory) (rounds : Nat) (orig : Memory)
    (pos offset left : Nat) :
    (patchLoop chng rounds orig pos offset left).1.map (List.drop 8) =
      (patchLoopSpans chng rounds orig pos left).map fun span => slice chng span.1 span.2 := by
  induction rounds generalizing orig pos offset left with
  | zero => rfl
  | succ rounds ih =>
      unfold patchLoop patchLoopSpans
      split
      · rfl
      · simp only
        split
        · rw [List.map_cons, List.map_cons, ih]
          simp [span, List.drop_append, LittleEndian.encode_length]
        · exact ih ..

theorem writePatch_bytes (orig chng : Memory) (offset size : Nat) :
    (writePatch orig chng offset size).bytes =
      (patchLoop chng size orig (offset % 2 ^ 32) (offset % 2 ^ 32) size).1.flatten ++
        (LittleEndian.encode 4 0 ++ LittleEndian.encode 4 0) := by
  simp [Written.bytes, writePatch]

/-- A run of `count` changed positions that is as long as possible. -/
structure Run (changed : Nat → Prop) (start count : Nat) : Prop where
  all : ∀ i, start ≤ i → i < start + count → changed i
  before : ∀ i, i + 1 = start → ¬ changed i
  behind : ¬ changed (start + count)

/-- Where the first changed positions are a run, and the others lie behind it with a gap, the other
runs are those of the others. -/
theorem run_iff {changed later : Nat → Prop} {first length start count i : Nat}
    (hchanged : ∀ i, changed i ↔ (first ≤ i ∧ i < first + length) ∨ later i)
    (hlater : ∀ i, later i → first + length < i) (hlow : start ≤ i) (hhigh : i < start + count) :
    Run changed start count ↔ (start = first ∧ count = length) ∨ Run later start count := by
  constructor
  · intro hrun
    by_cases hfirst : first ≤ i ∧ i < first + length
    · left
      have hgap : ¬ changed (first + length) := by
        rw [hchanged]
        rintro (hin | hin)
        · omega
        · exact lt_irrefl _ (hlater _ hin)
      have hstart : start = first := by
        rcases lt_trichotomy start first with hlt | heq | hgt
        · rcases (hchanged start).mp (hrun.all start le_rfl (by omega)) with hin | hin
          · omega
          · have := hlater start hin
            omega
        · exact heq
        · have hnot := hrun.before (start - 1) (by omega)
          exact absurd ((hchanged _).mpr (Or.inl (by omega))) hnot
      refine ⟨hstart, ?_⟩
      rcases lt_trichotomy count length with hlt | heq | hgt
      · exact absurd ((hchanged _).mpr (Or.inl (by omega))) hrun.behind
      · exact heq
      · exact absurd (hrun.all (first + length) (by omega) (by omega)) hgap
    · right
      -- the run lies behind the first one as a whole
      have hin : later i := ((hchanged i).mp (hrun.all i hlow hhigh)).resolve_left hfirst
      have hbehind := hlater i hin
      have hstart : first + length < start := by
        by_contra hle
        rcases (hchanged _).mp (hrun.all (first + length) (by omega) (by omega)) with
          hout | hout
        · omega
        · exact lt_irrefl _ (hlater _ hout)
      refine ⟨fun j hj hj' => ?_, fun j hj hout => ?_, fun hout => ?_⟩
      · exact ((hchanged j).mp (hrun.all j hj hj')).resolve_left (by omega)
      · exact hrun.before j hj ((hchanged j).mpr (Or.inr hout))
      · exact hrun.behind ((hchanged _).mpr (Or.inr hout))
  · rintro (⟨rfl, rfl⟩ | hrun)
    · refine ⟨fun j hj hj' => (hchanged j).mpr (Or.inl ⟨hj, hj'⟩), fun j hj hin => ?_,
        fun hin => ?_⟩
      · rcases (hchanged j).mp hin with hin | hin
        · omega
        · have := hlater j hin
          omega
      · rcases (hchanged _).mp hin with hin | hin
        · omega
        · exact lt_irrefl _ (hlater _ hin)
    · have hstart := hlater start (hrun.all start le_rfl (by omega))
      refine ⟨fun j hj hj' => (hchanged j).mpr (Or.inr (hrun.all j hj hj')), fun j hj hin => ?_,
        fun hin => ?_⟩
      · rcases (hchanged j).mp hin with hin | hin
        · omega
        · exact hrun.before j hj hin
      · rcases (hchanged _).mp hin with hin | hin
        · omega
        · exact hrun.behind hin

/-- The positions that a 32-bit counter has counted are those of the first run, and those of the
runs behind it. -/
theorem counted_iff {changed later : Nat → Prop} {first length i : Nat}
    (hchanged : ∀ i, changed i ↔ (first ≤ i ∧ i < first + length) ∨ later i)
    (hlater : ∀ i, later i → first + length < i) :
    (∃ start count, Run changed start count ∧ start ≤ i ∧ i < start + count % 2 ^ 32) ↔
      (first ≤ i ∧ i < first + length % 2 ^ 32) ∨
        ∃ start count, Run later start count ∧ start ≤ i ∧ i < start + count % 2 ^ 32 := by
  constructor
  · rintro ⟨start, count, hrun, hlow, hhigh⟩
    have hmod := Nat.mod_le count (2 ^ 32)
    rcases (run_iff hchanged hlater hlow (by omega)).mp hrun with ⟨rfl, rfl⟩ | hrun
    · exact Or.inl ⟨hlow, hhigh⟩
    · exact Or.inr ⟨start, count, hrun, hlow, hhigh⟩
  · rintro (⟨hlow, hhigh⟩ | ⟨start, count, hrun, hlow, hhigh⟩)
    · have hmod := Nat.mod_le length (2 ^ 32)
      exact ⟨first, length,
        (run_iff hchanged hlater hlow (by omega)).mpr (Or.inl ⟨rfl, rfl⟩), hlow, hhigh⟩
    · have hmod := Nat.mod_le count (2 ^ 32)
      exact ⟨start, count, (run_iff hchanged hlater hlow (by omega)).mpr (Or.inr hrun),
        hlow, hhigh⟩

/-- Memories that are equal have no run. -/
theorem not_run_of_equal {orig chng : Memory} {pos left i : Nat}
    (hequal : ∀ j, pos ≤ j → j < pos + left → orig j = chng j) :
    ¬ ∃ start count, Run (Rewritten orig chng pos left) start count ∧ start ≤ i ∧
      i < start + count % 2 ^ 32 := by
  rintro ⟨start, count, hrun, hlow, hhigh⟩
  have hmod := Nat.mod_le count (2 ^ 32)
  exact not_rewritten_of_equal hequal (hrun.all i hlow (by omega))

/-- **What `write_patch` emits**: of every run of changed blocks as many bytes as a 32-bit counter
has counted. -/
theorem inSpans_patchLoopSpans_iff (chng : Memory) {rounds : Nat} {orig : Memory}
    {pos left i : Nat} (hrounds : left ≤ rounds) :
    InSpans (patchLoopSpans chng rounds orig pos left) i ↔
      ∃ start count, Run (Rewritten orig chng pos left) start count ∧ start ≤ i ∧
        i < start + count % 2 ^ 32 := by
  induction rounds generalizing orig pos left with
  | zero =>
      obtain rfl : left = 0 := by omega
      exact iff_of_false (not_inSpans_nil i) (not_run_of_equal (by omega))
  | succ rounds ih =>
      unfold patchLoopSpans
      split
      · case _ hzero =>
          subst hzero
          exact iff_of_false (not_inSpans_nil i) (not_run_of_equal (by omega))
      · obtain ⟨count, hround, hcount, hgap⟩ := round_wide chng orig pos left
        simp only at hround hcount hgap ⊢
        generalize findPatchStart orig chng pos left = identical at *
        generalize copyDiffering chng left orig (pos + identical) 0 (left - identical) = diff at *
        generalize copyTail chng diff.1 diff.2.1 diff.2.2.1 diff.2.2.2 = tail at *
        have hchanged := fun j => hround.rewritten_iff (i := j)
        have hfits := hround.fits
        -- the later rounds emit the runs behind this one
        have hrest : InSpans (patchLoopSpans chng rounds tail.1 diff.2.1 tail.2.2) i ↔
            ∃ start length, Run (Rewritten tail.1 chng (pos + identical + count)
              (left - identical - count)) start length ∧ start ≤ i ∧
              i < start + length % 2 ^ 32 := by
          rcases hround.progress with ⟨hdone, hequal⟩ | ⟨hpos, hleft, hpositive⟩
          · simp only at hdone
            have hnil : patchLoopSpans chng rounds tail.1 diff.2.1 tail.2.2 = [] := by
              rw [hdone]
              cases rounds <;> simp [patchLoopSpans]
            rw [hnil]
            refine iff_of_false (not_inSpans_nil i) (not_run_of_equal fun j hlow hhigh => ?_)
            have hclone := hround.clone
            simp only at hclone
            rw [hclone, copy, if_neg (by omega)]
            exact hequal j hlow (by omega)
          · simp only at hpos hleft
            rw [hpos, hleft]
            exact ih (by omega)
        have hlater : ∀ j, Rewritten tail.1 chng (pos + identical + count)
            (left - identical - count) j → pos + identical + count < j := by
          rintro j ⟨hlow, hhigh, k, hkhigh, hklow, hblock, hne⟩
          have hclone := hround.clone
          simp only at hclone
          by_contra hle
          rw [hclone, copy, if_neg (by omega)] at hne
          exact hne (hgap k hklow (by omega) (by omega))
        rw [counted_iff hchanged hlater, ← hrest, ← hcount]
        split
        · rw [inSpans_cons]
        · case _ hzero =>
            rw [not_not] at hzero
            rw [hzero, Nat.add_zero]
            constructor
            · exact Or.inr
            · rintro (hin | hin)
              · omega
              · exact hin

end

end PatchSpans
end Lavatube
