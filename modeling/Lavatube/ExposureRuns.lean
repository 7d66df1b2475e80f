import Mathlib.Data.Set.Card
import Mathlib.Order.Interval.Finset.Nat
import Lavatube.RangeTracking

/-!
# Exposures are sets of bytes

Runs of calls on any number of exposures, next to the same run on plain sets of
64-bit positions.  The calls that only look at an exposure still turn its vector
around (`normalize`), so every call has an effect on the representation.

* `Canonical` — what the vector of an exposure looks like in either direction.
* `step_spec` — one call against the set it stands for.
* `exposure_is_byte_set` — whole runs: which calls pass their assertion, what
  the vectors look like, which sets they stand for, and what was answered.
* `overlap_of_run` — `overlap` on any two exposures of a run: the hull of the
  shifted intersection, the same on each of its exits.
-/

namespace Lavatube
namespace RangeTracking

open IntervalList

namespace Exposure

/-- `exposure::fetch_os`: the end of the range is computed in 64 bits. -/
def fetchOs (e : Exposure) (offset size : Nat) (isMapped : Bool) :
    Option (Range × Exposure) :=
  if size = 0 then some (Range.invalid, e)
  else e.fetch offset ((offset + size - 1) % 2 ^ 64) isMapped

/-- `exposure::span`. -/
def span (e : Exposure) : Range :=
  match e.r with
  | [] => Range.invalid
  | front :: tail =>
      let back := (front :: tail).getLast (List.cons_ne_nil _ _)
      if e.reversed then ⟨back.first, front.last⟩ else ⟨front.first, back.last⟩

/-- `exposure::size`. -/
def size (e : Exposure) : Nat := e.r.length

/-- `exposure::bytes`: the sum is kept in a `size_t`. -/
def bytes (e : Exposure) : Nat :=
  e.r.foldl (fun v s => (v + (1 + s.last - s.first)) % 2 ^ 64) 0

/-- The assertions of `exposure::self_test` from one range on, with the end of
the range before it (`none` at the first). -/
def selfTestFrom : Option Nat → List Range → Bool
  | _, [] => true
  | prev, s :: rest =>
      decide (s.first ≤ s.last) && prev.all (fun p => decide (s.first > p)) &&
        selfTestFrom (some s.last) rest

/-- `exposure::self_test`; `none` is a failed assertion. -/
def selfTest (e : Exposure) : Option Exposure :=
  if selfTestFrom none e.normalize.r then some e.normalize else none

/-- The vector of an exposure: non-empty ranges of 64-bit positions, ascending,
or descending while `reversed` is set, with a gap between any two of them. -/
def Canonical (e : Exposure) : Prop :=
  (∀ s ∈ e.r, s.first ≤ s.last ∧ s.last ≤ uint64Max) ∧
    if e.reversed then e.r.Pairwise fun left right => right.last + 1 < left.first
    else e.r.Pairwise fun left right => left.last + 1 < right.first

theorem WF.canonical {e : Exposure} (hwf : e.WF) : e.Canonical := by
  obtain ⟨r, reversed⟩ := e
  cases reversed with
  | false => exact ⟨hwf.valid, hwf.gaps⟩
  | true =>
      have hsep : Separated uint64Max r.reverse := hwf
      constructor
      · intro s hs
        exact hsep.valid s (List.mem_reverse.mpr hs)
      · show r.Pairwise fun left right => right.last + 1 < left.first
        exact List.pairwise_reverse.mp hsep.gaps

theorem wf_normalize {e : Exposure} (hwf : e.WF) : e.normalize.WF := by
  unfold WF
  rw [list_normalize]
  exact hwf

theorem mem_normalize (e : Exposure) (x : Nat) : e.normalize.Mem x ↔ e.Mem x :=
  covers_list e x

/-! ## The answers of the calls that only look -/

theorem mem_first {s : Range} (hvalid : s.first ≤ s.last) : s.Mem s.first :=
  ⟨le_rfl, hvalid⟩

theorem mem_last {s : Range} (hvalid : s.first ≤ s.last) : s.Mem s.last :=
  ⟨hvalid, le_rfl⟩

/-- The span of a separated list runs from its first to its last range. -/
theorem hull_ends {front back : Range} {tail : List Range}
    (hsep : Separated uint64Max (front :: tail))
    (hback : (front :: tail).getLast (List.cons_ne_nil _ _) = back) :
    Hull ⟨front.first, back.last⟩ (Covers (front :: tail)) := by
  subst hback
  have hmem := List.getLast_mem (List.cons_ne_nil front tail)
  have hfront := (hsep.valid front (by simp)).1
  have hlast := (hsep.valid _ hmem).1
  have hcovFirst : Covers (front :: tail) front.first :=
    ⟨front, by simp, mem_first hfront⟩
  have hcovLast : Covers (front :: tail)
      ((front :: tail).getLast (List.cons_ne_nil _ _)).last :=
    ⟨_, hmem, mem_last hlast⟩
  have hvalid : Interval.Valid ⟨front.first,
      ((front :: tail).getLast (List.cons_ne_nil _ _)).last⟩ :=
    hsep.first_le hcovLast
  unfold Hull
  rw [if_pos hvalid]
  exact ⟨hcovFirst, hcovLast, fun x hx =>
    ⟨hsep.first_le hx, le_getLast hsep (List.cons_ne_nil front tail) hx⟩⟩

/-- `span` is the smallest range around the set. -/
theorem span_spec {e : Exposure} (hwf : e.WF) : Hull e.span e.Mem := by
  obtain ⟨r, reversed⟩ := e
  cases r with
  | nil =>
      have hinvalid : ¬ Interval.Valid Range.invalid := by decide
      exact Hull.empty (by simp [Mem]) hinvalid
  | cons front tail =>
      cases reversed with
      | false => exact hull_ends hwf rfl
      | true =>
          -- in the descending vector the back holds the lowest range
          have hsep : Separated uint64Max (front :: tail).reverse := hwf
          have hsplit : (front :: tail).reverse =
              (front :: tail).getLast (List.cons_ne_nil _ _) ::
                ((front :: tail).dropLast).reverse := by
            conv_lhs => rw [← List.dropLast_append_getLast
              (List.cons_ne_nil front tail)]
            simp
          have hback : ((front :: tail).getLast (List.cons_ne_nil _ _) ::
              ((front :: tail).dropLast).reverse).getLast
                (List.cons_ne_nil _ _) = front := by
            simp only [← hsplit, List.getLast_reverse, List.head_cons]
          rw [hsplit] at hsep
          refine (hull_ends hsep hback).congr fun x => ?_
          rw [← hsplit, covers_reverse]
          rfl

/-- The positions of a range form a finite interval. -/
theorem setOf_mem_eq_Icc (s : Range) :
    {x | s.Mem x} = (Finset.Icc s.first s.last : Set Nat) := by
  ext x
  simp [Interval.Mem]

/-- The lengths of separated ranges add up to the number of positions. -/
theorem ncard_covers {r : List Range} (hsep : Separated uint64Max r) :
    {x | Covers r x}.Finite ∧
      {x | Covers r x}.ncard = (r.map fun s => 1 + s.last - s.first).sum := by
  induction r with
  | nil => simp
  | cons s rest ih =>
      obtain ⟨hs, hgap, hrest⟩ := Separated.cons_iff.mp hsep
      obtain ⟨hfinite, hcard⟩ := ih hrest
      have hunion : {x | Covers (s :: rest) x} =
          {x | s.Mem x} ∪ {x | Covers rest x} := by
        ext x
        simp
      have hdisjoint : Disjoint {x | s.Mem x} {x | Covers rest x} := by
        rw [Set.disjoint_left]
        rintro x hx ⟨other, hother, hmem⟩
        have := hgap other hother
        simp only [Set.mem_ofPred_eq, Interval.Mem] at hx hmem
        omega
      have hone : {x | s.Mem x}.Finite := by
        rw [setOf_mem_eq_Icc]
        exact Finset.finite_toSet _
      rw [hunion]
      refine ⟨hone.union hfinite, ?_⟩
      rw [Set.ncard_union_eq hdisjoint hone hfinite, hcard, setOf_mem_eq_Icc,
        Set.ncard_coe_finset, Nat.card_Icc, List.map_cons, List.sum_cons,
        Nat.add_comm s.last 1]

theorem foldl_bytes (r : List Range) (v : Nat) :
    r.foldl (fun v s => (v + (1 + s.last - s.first)) % 2 ^ 64) v % 2 ^ 64 =
      (v + (r.map fun s => 1 + s.last - s.first).sum) % 2 ^ 64 := by
  induction r generalizing v with
  | nil => simp
  | cons s rest ih =>
      rw [List.foldl_cons, ih, List.map_cons, List.sum_cons, Nat.mod_add_mod,
        Nat.add_assoc]

theorem bytes_lt (e : Exposure) : e.bytes < 2 ^ 64 := by
  unfold bytes
  rcases List.eq_nil_or_concat e.r with hnil | ⟨init, s, hsnoc⟩
  · rw [hnil]
    decide
  · rw [hsnoc, List.concat_eq_append, List.foldl_append]
    exact Nat.mod_lt _ (by decide)

/-- `bytes` counts the positions of the set, modulo the width of `size_t`. -/
theorem bytes_spec {e : Exposure} (hwf : e.WF) :
    e.bytes = {x | e.Mem x}.ncard % 2 ^ 64 := by
  have hset : {x | e.Mem x} = {x | Covers e.list x} := by
    ext x
    exact (covers_list e x).symm
  have hsum : (e.list.map fun s => 1 + s.last - s.first).sum =
      (e.r.map fun s => 1 + s.last - s.first).sum := by
    unfold list normalize
    split
    · simp only [List.map_reverse, List.sum_reverse]
    · rfl
  have hfold := foldl_bytes e.r 0
  rw [Nat.zero_add] at hfold
  rw [hset, (ncard_covers hwf).2, hsum, ← hfold]
  exact (Nat.mod_eq_of_lt e.bytes_lt).symm

theorem size_eq_length (e : Exposure) : e.size = e.list.length := by
  unfold size list normalize
  split
  · simp
  · rfl

theorem selfTestFrom_of_separated {r : List Range} (prev : Option Nat)
    (hsep : Separated uint64Max r) (hprev : ∀ p ∈ prev, ∀ s ∈ r, p < s.first) :
    selfTestFrom prev r = true := by
  induction r generalizing prev with
  | nil => rfl
  | cons s rest ih =>
      obtain ⟨hs, hgap, hrest⟩ := Separated.cons_iff.mp hsep
      have hnext : selfTestFrom (some s.last) rest = true := by
        apply ih (some s.last) hrest
        intro p hp other hother
        cases hp
        have := hgap other hother
        omega
      have hfirst : prev.all (fun p => decide (s.first > p)) = true := by
        cases prev with
        | none => rfl
        | some p => simpa using hprev p rfl s (by simp)
      simp [selfTestFrom, hs.1, hnext, hfirst]

theorem selfTest_spec {e : Exposure} (hwf : e.WF) :
    e.selfTest = some e.normalize := by
  have htest : selfTestFrom none e.normalize.r = true :=
    selfTestFrom_of_separated none hwf (by simp)
  unfold selfTest
  rw [if_pos htest]

end Exposure

/-! ## Runs of calls -/

/-- One call on a family of exposures. -/
inductive Op (ι : Type) where
  | add (i : ι) (start stop : Nat)
  | addOs (i : ι) (offset size : Nat)
  | fetch (i : ι) (start stop : Nat) (isMapped : Bool)
  | fetchOs (i : ι) (offset size : Nat) (isMapped : Bool)
  | overlap (i other : ι) (offset : Nat)
  | span (i : ι)
  | list (i : ι)
  | size (i : ι)
  | bytes (i : ι)
  | clear (i : ι)
  | selfTest (i : ι)

/-- What a call returns. -/
inductive Answer where
  | none
  | range (r : Range)
  | ranges (l : List Range)
  | count (n : Nat)
deriving DecidableEq, Repr

namespace Op

variable {ι : Type} [DecidableEq ι]

/-- The arguments of a call are 64-bit values. -/
def Words : Op ι → Prop
  | add _ start stop => start ≤ uint64Max ∧ stop ≤ uint64Max
  | addOs _ offset n => offset ≤ uint64Max ∧ n ≤ uint64Max
  | fetch _ start stop _ => start ≤ uint64Max ∧ stop ≤ uint64Max
  | fetchOs _ offset n _ => offset ≤ uint64Max ∧ n ≤ uint64Max
  | overlap _ _ offset => offset ≤ uint64Max
  | _ => True

/-- What the assertion `start <= end` asks of the arguments: a region does not
end before it starts, and an offset/size pair ends inside the 64-bit values. -/
def Asserted : Op ι → Prop
  | add _ start stop => start ≤ stop
  | addOs _ offset n => offset + n ≤ 2 ^ 64
  | fetch _ start stop _ => start ≤ stop
  | fetchOs _ offset n _ => offset + n ≤ 2 ^ 64
  | _ => True

/-- One call as the source makes it; `none` is a failed assertion. -/
def step (store : ι → Exposure) : Op ι → Option ((ι → Exposure) × Answer)
  | add i start stop =>
      ((store i).add start stop).map fun e => (Function.update store i e, .none)
  | addOs i offset n =>
      ((store i).addOs offset n).map fun e => (Function.update store i e, .none)
  | fetch i start stop isMapped =>
      ((store i).fetch start stop isMapped).map fun result =>
        (Function.update store i result.2, .range result.1)
  | fetchOs i offset n isMapped =>
      ((store i).fetchOs offset n isMapped).map fun result =>
        (Function.update store i result.2, .range result.1)
  | overlap i other offset =>
      let normalized := Function.update store i (store i).normalize
      some (Function.update normalized other (normalized other).normalize,
        .range ((store i).overlap (store other) offset))
  | span i => some (store, .range (store i).span)
  | list i =>
      some (Function.update store i (store i).normalize, .ranges (store i).list)
  | size i => some (store, .count (store i).size)
  | bytes i => some (store, .count (store i).bytes)
  | clear i => some (Function.update store i (store i).clear, .none)
  | selfTest i =>
      (store i).selfTest.map fun e => (Function.update store i e, .none)

/-- What a call means for the sets. -/
def effect (sets : ι → Set Nat) : Op ι → ι → Set Nat
  | add i start stop => Function.update sets i (sets i ∪ Set.Icc start stop)
  | addOs i offset n =>
      Function.update sets i (sets i ∪ Set.Ico offset (offset + n))
  | fetch i start stop isMapped =>
      if isMapped then sets
      else Function.update sets i (sets i \ Set.Icc start stop)
  | fetchOs i offset n isMapped =>
      if isMapped then sets
      else Function.update sets i (sets i \ Set.Ico offset (offset + n))
  | clear i => Function.update sets i ∅
  | _ => sets

/-- The answer of a call in terms of the sets. -/
def Answers (sets : ι → Set Nat) (answer : Answer) : Op ι → Prop
  | add .. | addOs .. | clear .. | selfTest .. => answer = .none
  | fetch i start stop _ =>
      ∃ r, answer = .range r ∧ Hull r (· ∈ sets i ∩ Set.Icc start stop)
  | fetchOs i offset n _ =>
      ∃ r, answer = .range r ∧
        Hull r (· ∈ sets i ∩ Set.Ico offset (offset + n))
  | overlap i other offset =>
      ∃ r, answer = .range r ∧
        Hull r fun x => x ∈ sets i ∧ offset ≤ x ∧ x - offset ∈ sets other
  | span i => ∃ r, answer = .range r ∧ Hull r (· ∈ sets i)
  | list i =>
      ∃ l, answer = .ranges l ∧ Separated uint64Max l ∧
        ∀ x, Covers l x ↔ x ∈ sets i
  | size i =>
      ∃ l : List Range, answer = .count l.length ∧ Separated uint64Max l ∧
        ∀ x, Covers l x ↔ x ∈ sets i
  | bytes i => answer = .count ((sets i).ncard % 2 ^ 64)

/-- A run of calls with their answers. -/
def run (store : ι → Exposure) : List (Op ι) → Option ((ι → Exposure) × List Answer)
  | [] => some (store, [])
  | op :: rest =>
      (op.step store).bind fun next =>
        (run next.1 rest).map fun final => (final.1, next.2 :: final.2)

/-- The sets after a run of calls. -/
def effects (sets : ι → Set Nat) (ops : List (Op ι)) : ι → Set Nat :=
  ops.foldl effect sets

/-- Every answer of a run is the answer of its call for the sets at that
point. -/
def AnswersAll (sets : ι → Set Nat) : List (Op ι) → List Answer → Prop
  | [], [] => True
  | op :: rest, answer :: answers =>
      op.Answers sets answer ∧ AnswersAll (op.effect sets) rest answers
  | _, _ => False

/-- The exposures of a store stand for the sets. -/
def Represents (store : ι → Exposure) (sets : ι → Set Nat) : Prop :=
  ∀ i, (store i).WF ∧ ∀ x, (store i).Mem x ↔ x ∈ sets i

omit [DecidableEq ι] in
theorem represents_empty :
    Represents (fun _ : ι => Exposure.empty) (fun _ => ∅) := by
  intro i
  exact ⟨Exposure.wf_empty, fun x => by simp [Exposure.empty]⟩

/-- Replacing one exposure and its set. -/
theorem Represents.update {store : ι → Exposure} {sets : ι → Set Nat}
    (hrep : Represents store sets) {i : ι} {e : Exposure} {s : Set Nat}
    (hwf : e.WF) (hmem : ∀ x, e.Mem x ↔ x ∈ s) :
    Represents (Function.update store i e) (Function.update sets i s) := by
  intro j
  by_cases hj : j = i
  · subst hj
    simpa using ⟨hwf, hmem⟩
  · simpa [hj] using hrep j

/-- Replacing one exposure by another one for the same set. -/
theorem Represents.update_left {store : ι → Exposure} {sets : ι → Set Nat}
    (hrep : Represents store sets) {i : ι} {e : Exposure}
    (hwf : e.WF) (hmem : ∀ x, e.Mem x ↔ x ∈ sets i) :
    Represents (Function.update store i e) sets := by
  have hupdate := hrep.update (i := i) hwf hmem
  rwa [Function.update_eq_self] at hupdate

theorem Represents.normalize {store : ι → Exposure} {sets : ι → Set Nat}
    (hrep : Represents store sets) (i : ι) :
    Represents (Function.update store i (store i).normalize) sets := by
  apply hrep.update_left (Exposure.wf_normalize (hrep i).1)
  intro x
  rw [Exposure.mem_normalize, (hrep i).2]

/-- `fetch` on one exposure of the store. -/
theorem Represents.fetch {store : ι → Exposure} {sets : ι → Set Nat}
    (hrep : Represents store sets) (i : ι) {start stop : Nat}
    (isMapped : Bool) (hle : start ≤ stop) :
    ∃ r e, (store i).fetch start stop isMapped = some (r, e) ∧
      Hull r (· ∈ sets i ∩ Set.Icc start stop) ∧
      Represents (Function.update store i e)
        (if isMapped then sets
          else Function.update sets i (sets i \ Set.Icc start stop)) := by
  obtain ⟨hhull, hwf, hmem⟩ :=
    Exposure.fetchRange_spec (store i) start stop isMapped (hrep i).1 hle
  refine ⟨_, _, if_pos hle, ?_, ?_⟩
  · refine hhull.congr fun x => ?_
    rw [(hrep i).2]
    rfl
  · unfold Exposure.Kept at hmem
    cases isMapped with
    | true =>
        apply hrep.update_left hwf
        intro x
        rw [hmem, (hrep i).2]
        simp
    | false =>
        apply hrep.update hwf
        intro x
        rw [hmem, (hrep i).2]
        simp

theorem Icc_eq_Ico_of_pos {offset n : Nat} (hpos : 0 < n) :
    Set.Icc offset (offset + n - 1) = Set.Ico offset (offset + n) := by
  ext x
  simp only [Set.mem_Icc, Set.mem_Ico]
  omega

/-- `fetch_os` on one exposure of the store. -/
theorem Represents.fetchOs {store : ι → Exposure} {sets : ι → Set Nat}
    (hrep : Represents store sets) (i : ι) {offset n : Nat}
    (isMapped : Bool) (hfits : offset + n ≤ 2 ^ 64) :
    ∃ r e, (store i).fetchOs offset n isMapped = some (r, e) ∧
      Hull r (· ∈ sets i ∩ Set.Ico offset (offset + n)) ∧
      Represents (Function.update store i e)
        (if isMapped then sets
          else Function.update sets i (sets i \ Set.Ico offset (offset + n))) := by
  unfold Exposure.fetchOs
  by_cases hzero : n = 0
  · subst hzero
    rw [if_pos rfl]
    refine ⟨_, _, rfl, Hull.empty (fun x hx => ?_) (by decide), ?_⟩
    · simp at hx
    · simpa [Function.update_eq_self] using hrep
  · have hmod : (offset + n - 1) % 2 ^ 64 = offset + n - 1 :=
      Nat.mod_eq_of_lt (by omega)
    rw [if_neg hzero, hmod, ← Icc_eq_Ico_of_pos (Nat.pos_of_ne_zero hzero)]
    exact hrep.fetch i isMapped (by omega)

/-- **One call.**  A call that passes its assertion answers for the sets as they
are and leaves a store that stands for the sets as the call changes them. -/
theorem step_spec {store : ι → Exposure} {sets : ι → Set Nat}
    (hrep : Represents store sets) (op : Op ι) (hwords : op.Words)
    (hassert : op.Asserted) :
    ∃ next answer, op.step store = some (next, answer) ∧
      Represents next (op.effect sets) ∧ op.Answers sets answer := by
  have hset : ∀ i, {x | (store i).Mem x} = sets i := by
    intro i
    ext x
    exact (hrep i).2 x
  cases op with
  | add i start stop =>
      obtain ⟨hwf, hmem⟩ := Exposure.addRange_spec (store i) start stop
        (hrep i).1 hassert hwords.2
      refine ⟨_, _, ?_, hrep.update hwf fun x => ?_, rfl⟩
      · have hle : start ≤ stop := hassert
        show ((store i).add start stop).map _ = _
        rw [Exposure.add, if_pos hle]
        rfl
      · rw [hmem, (hrep i).2]
        rfl
  | addOs i offset n =>
      obtain ⟨e, hadd, hwf, hmem⟩ :=
        Exposure.addOs_spec (store i) offset n (hrep i).1 hassert
      refine ⟨_, _, ?_, hrep.update hwf fun x => ?_, rfl⟩
      · show ((store i).addOs offset n).map _ = _
        rw [hadd]
        rfl
      · rw [hmem, (hrep i).2]
        rfl
  | fetch i start stop isMapped =>
      obtain ⟨r, e, hfetch, hhull, hnext⟩ := hrep.fetch i isMapped hassert
      refine ⟨_, _, ?_, hnext, r, rfl, hhull⟩
      show ((store i).fetch start stop isMapped).map _ = _
      rw [hfetch]
      rfl
  | fetchOs i offset n isMapped =>
      obtain ⟨r, e, hfetch, hhull, hnext⟩ := hrep.fetchOs i isMapped hassert
      refine ⟨_, _, ?_, hnext, r, rfl, hhull⟩
      show ((store i).fetchOs offset n isMapped).map _ = _
      rw [hfetch]
      rfl
  | overlap i other offset =>
      -- both exposures are normalized, which leaves their sets as they are
      refine ⟨_, _, rfl, (hrep.normalize i).normalize other, _, rfl, ?_⟩
      refine (Exposure.overlap_spec (store i) (store other) offset (hrep i).1
        (hrep other).1 hwords).congr fun x => ?_
      rw [(hrep i).2, (hrep other).2]
  | span i =>
      refine ⟨_, _, rfl, hrep, _, rfl, ?_⟩
      exact (Exposure.span_spec (hrep i).1).congr (hrep i).2
  | list i =>
      refine ⟨_, _, rfl, hrep.normalize i, _, rfl, (hrep i).1, fun x => ?_⟩
      rw [Exposure.covers_list]
      exact (hrep i).2 x
  | size i =>
      refine ⟨_, _, rfl, hrep, (store i).list, ?_, (hrep i).1, fun x => ?_⟩
      · rw [← Exposure.size_eq_length]
      · rw [Exposure.covers_list]
        exact (hrep i).2 x
  | bytes i =>
      refine ⟨_, _, rfl, hrep, ?_⟩
      show Answer.count _ = Answer.count _
      rw [Exposure.bytes_spec (hrep i).1, hset]
  | clear i =>
      refine ⟨_, _, rfl, hrep.update Exposure.wf_empty fun x => ?_, rfl⟩
      simp [Exposure.clear]
  | selfTest i =>
      refine ⟨_, _, ?_, hrep.normalize i, rfl⟩
      show (store i).selfTest.map _ = _
      rw [Exposure.selfTest_spec (hrep i).1]
      rfl

/-- A call whose arguments break the assertion aborts. -/
theorem step_eq_none (store : ι → Exposure) (op : Op ι) (hwords : op.Words)
    (hassert : ¬ op.Asserted) : op.step store = none := by
  cases op with
  | add i start stop =>
      have hgt : ¬ start ≤ stop := hassert
      show ((store i).add start stop).map _ = none
      rw [Exposure.add, if_neg hgt]
      rfl
  | addOs i offset n =>
      have hwrap : ¬ offset ≤ (offset + n - 1) % 2 ^ 64 := by
        simp only [Words, Asserted, uint64Max] at hwords hassert
        omega
      show ((store i).addOs offset n).map _ = none
      rw [Exposure.addOs, if_pos (by simp only [Asserted, Words, uint64Max] at *; omega),
        Exposure.add, if_neg hwrap]
      rfl
  | fetch i start stop isMapped =>
      have hgt : ¬ start ≤ stop := hassert
      show ((store i).fetch start stop isMapped).map _ = none
      rw [Exposure.fetch, if_neg hgt]
      rfl
  | fetchOs i offset n isMapped =>
      have hwrap : ¬ offset ≤ (offset + n - 1) % 2 ^ 64 := by
        simp only [Words, Asserted, uint64Max] at hwords hassert
        omega
      show ((store i).fetchOs offset n isMapped).map _ = none
      rw [Exposure.fetchOs, if_neg (by simp only [Asserted, Words, uint64Max] at *; omega),
        Exposure.fetch, if_neg hwrap]
      rfl
  | overlap | span | list | size | bytes | clear | selfTest =>
      exact (hassert trivial).elim

/-- Runs that pass their assertions, by induction on the calls. -/
theorem run_spec {store : ι → Exposure} {sets : ι → Set Nat}
    (hrep : Represents store sets) (ops : List (Op ι))
    (hwords : ∀ op ∈ ops, op.Words) (hassert : ∀ op ∈ ops, op.Asserted) :
    ∃ final answers, run store ops = some (final, answers) ∧
      Represents final (effects sets ops) ∧ AnswersAll sets ops answers := by
  induction ops generalizing store sets with
  | nil => exact ⟨store, [], rfl, hrep, trivial⟩
  | cons op rest ih =>
      obtain ⟨next, answer, hstep, hnext, hanswer⟩ :=
        step_spec hrep op (hwords op (by simp)) (hassert op (by simp))
      obtain ⟨final, answers, hrun, hfinal, hanswers⟩ :=
        ih hnext (fun o ho => hwords o (by simp [ho]))
          (fun o ho => hassert o (by simp [ho]))
      refine ⟨final, answer :: answers, ?_, hfinal, hanswer, hanswers⟩
      show (op.step store).bind _ = _
      rw [hstep, Option.bind_some, hrun]
      rfl

/-- A finished run passed every assertion. -/
theorem asserted_of_run {store : ι → Exposure} {ops : List (Op ι)}
    (hwords : ∀ op ∈ ops, op.Words) {final : (ι → Exposure) × List Answer}
    (hrun : run store ops = some final) :
    ∀ op ∈ ops, op.Asserted := by
  induction ops generalizing store final with
  | nil => simp
  | cons op rest ih =>
      have hrest : ∀ o ∈ rest, o.Words := fun o ho => hwords o (by simp [ho])
      cases hstep : op.step store with
      | none =>
          rw [run, hstep] at hrun
          cases hrun
      | some result =>
          rw [run, hstep, Option.bind_some, Option.map_eq_some_iff] at hrun
          obtain ⟨tail, htail, -⟩ := hrun
          intro o ho
          rcases List.mem_cons.mp ho with rfl | ho
          · by_contra hassert
            rw [step_eq_none store o (hwords o (by simp)) hassert] at hstep
            cases hstep
          · exact ih hrest htail o ho

/-- **An exposure is a set of bytes.**  Start any number of exposures empty and
make any calls with 64-bit arguments on them.  The run passes its assertions
exactly if every region ends at or after its start; then every vector is
canonical in its direction, every exposure stands for the set that plain set
algebra gives, and every answer is the one for the sets at that point. -/
theorem exposure_is_byte_set (ops : List (Op ι)) (hwords : ∀ op ∈ ops, op.Words) :
    ((run (fun _ => Exposure.empty) ops).isSome ↔ ∀ op ∈ ops, op.Asserted) ∧
      ∀ final answers, run (fun _ => Exposure.empty) ops = some (final, answers) →
        (∀ i, (final i).Canonical) ∧
        (∀ i x, (final i).Mem x ↔ x ∈ effects (fun _ => ∅) ops i) ∧
        AnswersAll (fun _ => ∅) ops answers := by
  constructor
  · constructor
    · intro hsome
      obtain ⟨⟨final, answers⟩, hrun⟩ := Option.isSome_iff_exists.mp hsome
      exact asserted_of_run hwords hrun
    · intro hassert
      obtain ⟨final, answers, hrun, -⟩ :=
        run_spec represents_empty ops hwords hassert
      rw [hrun]
      rfl
  · intro final answers hrun
    obtain ⟨final', answers', hrun', hrep, hanswers⟩ :=
      run_spec represents_empty ops hwords (asserted_of_run hwords hrun)
    rw [hrun] at hrun'
    cases hrun'
    exact ⟨fun i => (hrep i).1.canonical, fun i => (hrep i).2, hanswers⟩

/-- The exposures that a run of calls leaves stand for the sets of the run. -/
theorem represents_of_run {ops : List (Op ι)} (hwords : ∀ op ∈ ops, op.Words)
    {final : ι → Exposure} {answers : List Answer}
    (hrun : run (fun _ => Exposure.empty) ops = some (final, answers)) :
    Represents final (effects (fun _ => ∅) ops) := by
  obtain ⟨final', answers', hrun', hrep, -⟩ :=
    run_spec represents_empty ops hwords (asserted_of_run hwords hrun)
  rw [hrun] at hrun'
  cases hrun'
  exact hrep

/-- **`overlap` on exposures that any calls have built.**  The sets hold 64-bit
positions only, `overlap` returns the hull of the shifted intersection, it is
invalid exactly if nothing is shared, and whichever exit it takes, it returns
what the two-pointer sweep over the two ascending lists returns. -/
theorem overlap_of_run {ops : List (Op ι)} (hwords : ∀ op ∈ ops, op.Words)
    {final : ι → Exposure} {answers : List Answer}
    (hrun : run (fun _ => Exposure.empty) ops = some (final, answers))
    (i other : ι) {offset : Nat} (hoffset : offset ≤ uint64Max) :
    (∀ j, ∀ x ∈ effects (fun _ => ∅) ops j, x ≤ uint64Max) ∧
      Hull ((final i).overlap (final other) offset)
        (fun x => x ∈ effects (fun _ => ∅) ops i ∧ offset ≤ x ∧
          x - offset ∈ effects (fun _ => ∅) ops other) ∧
      (¬ ((final i).overlap (final other) offset).Valid ↔
        ∀ x ∈ effects (fun _ => ∅) ops i, offset ≤ x →
          x - offset ∉ effects (fun _ => ∅) ops other) ∧
      (final i).overlap (final other) offset =
        Exposure.overlapSweep offset
          ((final i).list.length + (final other).list.length)
          (final i).list (final other).list Range.invalid := by
  have hrep := represents_of_run hwords hrun
  have hhull : Hull ((final i).overlap (final other) offset)
      (fun x => x ∈ effects (fun _ => ∅) ops i ∧ offset ≤ x ∧
        x - offset ∈ effects (fun _ => ∅) ops other) := by
    refine (Exposure.overlap_spec (final i) (final other) offset (hrep i).1
      (hrep other).1 hoffset).congr fun x => ?_
    rw [(hrep i).2, (hrep other).2]
  refine ⟨fun j x hx => (hrep j).1.le_max (((hrep j).2 x).mpr hx), hhull, ?_,
    Exposure.overlap_eq_sweep _ _ _ (hrep i).1 (hrep other).1 hoffset⟩
  rw [hhull.valid_iff]
  constructor
  · intro hnone x hx hle hshift
    exact hnone ⟨x, hx, hle, hshift⟩
  · rintro hnone ⟨x, hx, hle, hshift⟩
    exact hnone x hx hle hshift

/-- Two exposures of two ranges each; under the shift the upper range of the
second one leaves the 64-bit positions. -/
def shiftedPair : List (Op Bool) :=
  [.add true 0 9, .add true 20 29, .addOs false 0 4, .add false (2 ^ 64 - 8) (2 ^ 64 - 1)]

theorem overlap_shiftedPair :
    ∃ final answers, run (fun _ => Exposure.empty) shiftedPair = some (final, answers) ∧
      (final true).overlap (final false) 8 = ⟨8, 9⟩ ∧
      Hull ((final true).overlap (final false) 8)
        (fun x => x ∈ effects (fun _ => ∅) shiftedPair true ∧ 8 ≤ x ∧
          x - 8 ∈ effects (fun _ => ∅) shiftedPair false) := by
  have hwords : ∀ op ∈ shiftedPair, op.Words := by
    simp [shiftedPair, Words, uint64Max]
  refine ⟨_, _, rfl, by decide, ?_⟩
  have hoffset : 8 ≤ uint64Max := by decide
  exact (overlap_of_run hwords rfl true false hoffset).2.1

/-- A walk downwards, a range up to `UINT64_MAX` that joins two others, and a
fetch that splits it. -/
def walkDown : List (Op Unit) :=
  [.add () 8 9, .add () 0 5, .addOs () 6 (2 ^ 64 - 6), .fetch () 5 8 false]

theorem walkDown_is_byte_set :
    ∃ final answers, run (fun _ => Exposure.empty) walkDown = some (final, answers) ∧
      final () = ⟨[⟨0, 4⟩, ⟨9, uint64Max⟩], false⟩ ∧
      answers = [.none, .none, .none, .range ⟨5, 8⟩] ∧
      (final ()).Canonical ∧ AnswersAll (fun _ => ∅) walkDown answers := by
  have hwords : ∀ op ∈ walkDown, op.Words := by
    simp [walkDown, Words, uint64Max]
  refine ⟨_, _, rfl, rfl, rfl, ?_⟩
  obtain ⟨hcanonical, -, hanswers⟩ := (exposure_is_byte_set walkDown hwords).2 _ _ rfl
  exact ⟨hcanonical (), hanswers⟩

end Op

end RangeTracking
end Lavatube
