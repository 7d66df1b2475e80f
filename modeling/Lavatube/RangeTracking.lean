import Mathlib.Data.List.TakeWhile
import Lavatube.Lib.IntervalList

/-!
# Dirty range tracking

The `exposure` of `rangetracking.h`: the set of bytes of a device memory that
the host may have written since the capture clone was last brought up to date.
The ranges are kept sorted, either ascending or, while the host walks memory
downwards, descending (`reversed`); every reader normalises first.

All positions are 64-bit values.  The source tests for `UINT64_MAX` before each
`+ 1`, so the additions below never wrap; the one place that can wrap is the
end of an offset/size pair (`addOs`, `fetchOs`).

* `add_spec` — `add` is set union with `[start, end]`.
* `fetch_spec` — `fetch` returns the hull of the part inside `[start, end]`,
  and removes that part unless the memory is mapped.
* `overlap_spec` — `overlap` returns the hull of the shifted intersection.
-/

namespace Lavatube
namespace RangeTracking

open IntervalList

/-- `UINT64_MAX`. -/
def uint64Max : Nat := 2 ^ 64 - 1

/-- `struct range`. -/
abbrev Range := IntervalList.Interval

/-- `range::invalid()`. -/
def Range.invalid : Range := ⟨1, 0⟩

/-- `struct exposure`: the ranges and the direction in which they are kept. -/
structure Exposure where
  r : List Range := []
  reversed : Bool := false
deriving DecidableEq, Repr

namespace Exposure

/-- The empty exposure. -/
def empty : Exposure := {}

/-- `exposure::normalize`. -/
def normalize (e : Exposure) : Exposure :=
  if e.reversed then { r := e.r.reverse, reversed := false } else e

/-- `exposure::list`. -/
def list (e : Exposure) : List Range := e.normalize.r

/-- `exposure::clear`. -/
def clear (_ : Exposure) : Exposure := {}

/-- The set of positions an exposure stands for. -/
def Mem (e : Exposure) (x : Nat) : Prop := Covers e.r x

instance (e : Exposure) (x : Nat) : Decidable (e.Mem x) :=
  inferInstanceAs (Decidable (Covers e.r x))

/-- The merge loop at the end of `add`: swallow the following ranges as long as
they overlap or touch the one that grew. -/
def absorb (grown : Range) : List Range → Range × List Range
  | [] => (grown, [])
  | current :: rest =>
      if grown.last = uint64Max ∨ grown.last + 1 ≥ current.first then
        absorb { grown with last := max grown.last current.last } rest
      else
        (grown, current :: rest)

/-- The comparison of the binary search in `add`: the range ends before
`start` and does not even touch it. -/
def endsBefore (start : Nat) (s : Range) : Bool :=
  s.last ≠ uint64Max ∧ s.last + 1 < start

/-- The part of `add` from the binary search on.  `std::lower_bound` finds the
first range that does not end before `start`; on a sorted vector that is where
`takeWhile` stops. -/
def insertMiddle (r : List Range) (start stop : Nat) : List Range :=
  let before := r.takeWhile (endsBefore start)
  match r.dropWhile (endsBefore start) with
  | [] => r ++ [⟨start, stop⟩]
  | iter :: rest =>
      if stop ≠ uint64Max ∧ stop + 1 < iter.first then
        before ++ ⟨start, stop⟩ :: iter :: rest
      else
        let merged :=
          absorb ⟨min iter.first start, max iter.last stop⟩ rest
        before ++ merged.1 :: merged.2

/-- The part of `add` that works on a normalised, non-empty vector. -/
def addForward (front : Range) (tail : List Range) (start stop : Nat) :
    Exposure :=
  let r := front :: tail
  if stop ≠ uint64Max ∧ stop + 1 < front.first then
    if tail = [] then
      -- the host starts walking downwards: keep the vector descending
      { r := r ++ [⟨start, stop⟩], reversed := true }
    else
      { r := ⟨start, stop⟩ :: r }
  else
    let last := r.getLast (List.cons_ne_nil _ _)
    if last.last ≠ uint64Max ∧ start > last.last + 1 then
      { r := r ++ [⟨start, stop⟩] }
    else if start ≥ last.first ∧
        (last.last = uint64Max ∨ start ≤ last.last + 1) then
      { r := r.dropLast ++ [{ last with last := max last.last stop }] }
    else
      { r := insertMiddle r start stop }

/-- `exposure::add` behind its assertion `start <= end`. -/
def addRange (e : Exposure) (start stop : Nat) : Exposure :=
  match e.r with
  | [] => { e with r := [⟨start, stop⟩] }
  | front :: tail =>
      if e.reversed ∧ stop ≠ uint64Max ∧
          stop + 1 < ((front :: tail).getLast (List.cons_ne_nil _ _)).first then
        { e with r := front :: tail ++ [⟨start, stop⟩] }
      else
        match e.normalize.r with
        | [] => e
        | front :: tail => addForward front tail start stop

/-- `exposure::add`; `none` is the failed assertion. -/
def add (e : Exposure) (start stop : Nat) : Option Exposure :=
  if start ≤ stop then some (e.addRange start stop) else none

/-- `exposure::add_os`: the end of the range is computed in 64 bits. -/
def addOs (e : Exposure) (offset size : Nat) : Option Exposure :=
  if 0 < size then e.add offset ((offset + size - 1) % 2 ^ 64) else some e

/-- The loop of `fetch` over the ranges, with the running result. -/
def fetchLoop (start stop : Nat) (isMapped : Bool) (retval : Range) :
    List Range → Range × List Range
  | [] => (retval, [])
  | s :: rest =>
      if s.first > stop then
        (retval, s :: rest)
      else if s.last ≥ start then
        let found := retval.extend ⟨max s.first start, min s.last stop⟩
        if isMapped then
          let after := fetchLoop start stop isMapped found rest
          (after.1, s :: after.2)
        else if s.first ≥ start ∧ s.last ≤ stop then
          -- consumed entirely
          fetchLoop start stop isMapped found rest
        else if s.first < start ∧ s.last > stop then
          -- split in two
          (found, ⟨s.first, start - 1⟩ :: ⟨stop + 1, s.last⟩ :: rest)
        else if s.first < start then
          -- remove from end
          let after := fetchLoop start stop isMapped found rest
          (after.1, ⟨s.first, start - 1⟩ :: after.2)
        else
          -- remove from start
          (found, ⟨stop + 1, s.last⟩ :: rest)
      else
        let after := fetchLoop start stop isMapped retval rest
        (after.1, s :: after.2)

/-- The branch of `fetch` for a vector with a single range. -/
def fetchSingle (start stop : Nat) (isMapped : Bool) (s : Range) :
    Range × List Range :=
  if s.last < start ∨ s.first > stop then
    (Range.invalid, [s])
  else
    let retval : Range := ⟨max s.first start, min s.last stop⟩
    if isMapped then
      (retval, [s])
    else if s.first ≥ start ∧ s.last ≤ stop then
      (retval, [])
    else if s.first < start ∧ s.last > stop then
      (retval, [⟨s.first, start - 1⟩, ⟨stop + 1, s.last⟩])
    else if s.first < start then
      (retval, [⟨s.first, start - 1⟩])
    else
      (retval, [⟨stop + 1, s.last⟩])

/-- `fetch` on a sorted vector: one range is handled apart from several. -/
def fetchSorted (start stop : Nat) (isMapped : Bool) :
    List Range → Range × List Range
  | [s] => fetchSingle start stop isMapped s
  | r => fetchLoop start stop isMapped Range.invalid r

/-- `exposure::fetch` behind its assertion `start <= end`. -/
def fetchRange (e : Exposure) (start stop : Nat) (isMapped : Bool) :
    Range × Exposure :=
  match e.normalize.r with
  | [] => (Range.invalid, e.normalize)
  | front :: tail =>
      if stop < front.first ∨
          start > ((front :: tail).getLast (List.cons_ne_nil _ _)).last then
        (Range.invalid, e.normalize)
      else
        let result := fetchSorted start stop isMapped (front :: tail)
        (result.1, { r := result.2 })

/-- `exposure::fetch`; `none` is the failed assertion. -/
def fetch (e : Exposure) (start stop : Nat) (isMapped : Bool) :
    Option (Range × Exposure) :=
  if start ≤ stop then some (e.fetchRange start stop isMapped) else none

/-- A position of the other exposure under the shift, with saturation. -/
def shiftLast (offset last : Nat) : Nat :=
  if last > uint64Max - offset then uint64Max else last + offset

/-- The two-pointer sweep of `overlap`.  Each round drops the head of one of
the two lists, so their total length bounds the number of rounds. -/
def overlapSweep (offset : Nat) :
    Nat → List Range → List Range → Range → Range
  | rounds + 1, i :: iter, o :: other, retval =>
      if o.first > uint64Max - offset then
        retval
      else
        let otherFirst := o.first + offset
        let otherLast := shiftLast offset o.last
        if i.last < otherFirst then
          overlapSweep offset rounds iter (o :: other) retval
        else if otherLast < i.first then
          overlapSweep offset rounds (i :: iter) other retval
        else
          let found :=
            retval.extend ⟨max i.first otherFirst, min i.last otherLast⟩
          if i.last < otherLast then
            overlapSweep offset rounds iter (o :: other) found
          else
            overlapSweep offset rounds (i :: iter) other found
  | _, _, _, retval => retval

/-- `exposure::overlap`: the span of the positions of `e` that are positions of
`other` shifted up by `offset`. -/
def overlap (e other : Exposure) (offset : Nat) : Range :=
  match e.normalize.r, other.normalize.r with
  | front :: tail, otherFront :: otherTail =>
      let r := front :: tail
      let back := r.getLast (List.cons_ne_nil _ _)
      let otherR := otherFront :: otherTail
      let otherBack := otherR.getLast (List.cons_ne_nil _ _)
      if otherFront.first > uint64Max - offset then
        Range.invalid
      else
        let firstOther := otherFront.first + offset
        let lastOther := shiftLast offset otherBack.last
        if lastOther < front.first ∨ firstOther > back.last then
          Range.invalid
        else if tail = [] ∧ otherTail = [] then
          ⟨max front.first firstOther, min front.last lastOther⟩
        else
          overlapSweep offset (r.length + otherR.length) r otherR Range.invalid
  | _, _ => Range.invalid

/-! ## The set behind an exposure -/

/-- The invariant of `exposure::self_test`, strengthened by the gaps that `add`
keeps between ranges. -/
def WF (e : Exposure) : Prop := Separated uint64Max e.list

theorem covers_list (e : Exposure) (x : Nat) :
    Covers e.list x ↔ e.Mem x := by
  unfold list normalize Mem
  split
  · exact covers_reverse e.r x
  · exact Iff.rfl

@[simp] theorem list_forward (r : List Range) :
    ({ r := r } : Exposure).list = r := rfl

@[simp] theorem list_reversed (r : List Range) :
    ({ r := r, reversed := true } : Exposure).list = r.reverse := rfl

@[simp] theorem mem_mk (r : List Range) (reversed : Bool) (x : Nat) :
    Mem ⟨r, reversed⟩ x ↔ Covers r x := Iff.rfl

theorem list_normalize (e : Exposure) : e.normalize.list = e.list := by
  obtain ⟨r, reversed⟩ := e
  cases reversed <;> rfl

theorem wf_empty : WF empty := Separated.nil

theorem WF.le_max {e : Exposure} (hwf : e.WF) {x : Nat} (hx : e.Mem x) :
    x ≤ uint64Max :=
  hwf.le_bound ((covers_list e x).mpr hx)

/-! ## `add` is set union -/

/-- The merge loop keeps the covered set and restores the gaps. -/
theorem absorb_spec (grown : Range) (rest : List Range)
    (hrest : Separated uint64Max rest)
    (hgrown : grown.first ≤ grown.last) (hbound : grown.last ≤ uint64Max)
    (hbefore : ∀ other ∈ rest, grown.first ≤ other.first) :
    (absorb grown rest).1.first = grown.first ∧
      Separated uint64Max ((absorb grown rest).1 :: (absorb grown rest).2) ∧
      ∀ x, Covers ((absorb grown rest).1 :: (absorb grown rest).2) x ↔
        grown.Mem x ∨ Covers rest x := by
  induction rest generalizing grown with
  | nil =>
      refine ⟨rfl, ?_, ?_⟩
      · simpa [absorb] using And.intro hgrown hbound
      · intro x
        simp [absorb]
  | cons current rest ih =>
      obtain ⟨hcurrent, hgap, htail⟩ := Separated.cons_iff.mp hrest
      have hfirst : grown.first ≤ current.first := hbefore current (by simp)
      unfold absorb
      split
      · case _ htouch =>
          -- the next range is touched and taken in
          have hafter : ∀ other ∈ rest, grown.first ≤ other.first := by
            intro other hother
            have := hgap other hother
            omega
          have hvalid : grown.first ≤ max grown.last current.last := by omega
          have hmax : max grown.last current.last ≤ uint64Max := by omega
          obtain ⟨hkeep, hsep, hcover⟩ :=
            ih { grown with last := max grown.last current.last }
              htail hvalid hmax hafter
          refine ⟨hkeep, hsep, ?_⟩
          intro x
          rw [hcover x, covers_cons, ← or_assoc]
          apply or_congr_left
          simp only [Interval.Mem]
          omega
      · case _ hfar =>
          -- a gap stays
          push Not at hfar
          refine ⟨rfl, ?_, fun x => by simp⟩
          refine Separated.cons_iff.mpr ⟨⟨hgrown, hbound⟩, ?_, hrest⟩
          intro other hother
          show grown.last + 1 < other.first
          rcases List.mem_cons.mp hother with rfl | hother
          · omega
          · have := hgap other hother
            omega

/-- The ranges skipped by the binary search end well before `start`. -/
theorem takeWhile_before {r : List Range} {start : Nat} {s : Range}
    (hs : s ∈ r.takeWhile (endsBefore start)) : s.last + 1 < start := by
  have hends := List.mem_takeWhile_imp hs
  simp only [endsBefore, decide_eq_true_eq] at hends
  exact hends.2

/-- The range at which the binary search stops reaches up to `start`. -/
theorem not_endsBefore_of_dropWhile {r rest : List Range} {start : Nat}
    {iter : Range} (hdrop : r.dropWhile (endsBefore start) = iter :: rest) :
    iter.last = uint64Max ∨ start ≤ iter.last + 1 := by
  have hstop : endsBefore start iter = false := by
    have := List.head?_dropWhile_not (endsBefore start) r
    rw [hdrop] at this
    simpa using this
  unfold endsBefore at hstop
  rw [decide_eq_false_iff_not] at hstop
  by_contra hcontra
  push Not at hcontra
  exact hstop ⟨hcontra.1, by omega⟩

theorem insertMiddle_spec (r : List Range) (start stop : Nat)
    (hsep : Separated uint64Max r) (hle : start ≤ stop)
    (hstop : stop ≤ uint64Max) :
    Separated uint64Max (insertMiddle r start stop) ∧
      ∀ x, Covers (insertMiddle r start stop) x ↔
        Covers r x ∨ (start ≤ x ∧ x ≤ stop) := by
  have hsplit := List.takeWhile_append_dropWhile (p := endsBefore start) (l := r)
  unfold insertMiddle
  simp only
  cases hafter : r.dropWhile (endsBefore start) with
  | nil =>
      rw [hafter, List.append_nil] at hsplit
      refine ⟨?_, fun x => by simp [Interval.Mem]⟩
      rw [Separated.append_iff]
      refine ⟨hsep, by simp [hle, hstop], ?_⟩
      intro a ha b hb
      rw [List.mem_singleton] at hb
      subst hb
      rw [← hsplit] at ha
      exact takeWhile_before ha
  | cons iter rest =>
      rw [hafter] at hsplit
      have hnear := not_endsBefore_of_dropWhile hafter
      rw [← hsplit] at hsep
      obtain ⟨hbefore, hfrom, hcross⟩ := Separated.append_iff.mp hsep
      obtain ⟨hvalid, hgap, hrest⟩ := Separated.cons_iff.mp hfrom
      have hcovers : ∀ x, Covers r x ↔
          Covers (r.takeWhile (endsBefore start)) x ∨
            (iter.Mem x ∨ Covers rest x) := by
        intro x
        conv_lhs => rw [← hsplit]
        simp
      simp only
      split
      · case _ hgapRight =>
          refine ⟨?_, ?_⟩
          · rw [Separated.append_iff]
            refine ⟨hbefore, ?_, ?_⟩
            · refine Separated.cons_iff.mpr ⟨⟨hle, hstop⟩, ?_, hfrom⟩
              intro other hother
              show stop + 1 < other.first
              rcases List.mem_cons.mp hother with rfl | hother
              · exact hgapRight.2
              · have := hgap other hother
                have := hgapRight.2
                omega
            · intro a ha b hb
              rcases List.mem_cons.mp hb with rfl | hb
              · exact takeWhile_before ha
              · exact hcross a ha b hb
          · intro x
            rw [hcovers, covers_append, covers_cons, covers_cons, or_assoc]
            exact or_congr_right or_comm
      · case _ htouch =>
          have hbeforeRest : ∀ other ∈ rest,
              (⟨min iter.first start, max iter.last stop⟩ : Range).first ≤
                other.first := by
            intro other hother
            have := hgap other hother
            simp only
            omega
          obtain ⟨hfirst, hmerged, hcover⟩ :=
            absorb_spec ⟨min iter.first start, max iter.last stop⟩ rest hrest
              (by simp only; omega) (by simp only; omega) hbeforeRest
          refine ⟨?_, ?_⟩
          · rw [Separated.append_iff]
            refine ⟨hbefore, hmerged, ?_⟩
            intro a ha b hb
            have hstart := takeWhile_before ha
            have hiterFirst := hcross a ha iter (by simp)
            rcases List.mem_cons.mp hb with rfl | hb
            · rw [hfirst]
              simp only
              omega
            · have hchain :=
                (Separated.cons_iff.mp hmerged).2.1 b hb
              have hok := (Separated.cons_iff.mp hmerged).1.1
              rw [hfirst] at hok
              simp only at hok
              omega
          · intro x
            rw [covers_append, hcover x, hcovers]
            simp only [Interval.Mem]
            have hnear' : stop = uint64Max ∨ iter.first ≤ stop + 1 := by
              by_contra hcontra
              push Not at hcontra
              exact htouch ⟨hcontra.1, by omega⟩
            -- the two ranges touch, so their hull adds no position in between
            have hhull : (min iter.first start ≤ x ∧ x ≤ max iter.last stop) ↔
                (iter.first ≤ x ∧ x ≤ iter.last) ∨ (start ≤ x ∧ x ≤ stop) := by
              omega
            rw [hhull, or_assoc, or_assoc, or_assoc]
            exact or_congr_right (or_congr_right or_comm)

/-- A range appended after everything else. -/
theorem separated_snoc {r : List Range} {start stop : Nat}
    (hsep : Separated uint64Max r) (hle : start ≤ stop)
    (hstop : stop ≤ uint64Max)
    (hafter : ∀ other ∈ r, other.last + 1 < start) :
    Separated uint64Max (r ++ [⟨start, stop⟩]) := by
  refine Separated.append_iff.mpr ⟨hsep, by simp [hle, hstop], ?_⟩
  intro a ha b hb
  rw [List.mem_singleton] at hb
  subst hb
  exact hafter a ha

theorem separated_cons {r : List Range} {start stop : Nat}
    (hsep : Separated uint64Max r) (hle : start ≤ stop)
    (hstop : stop ≤ uint64Max)
    (hbefore : ∀ other ∈ r, stop + 1 < other.first) :
    Separated uint64Max (⟨start, stop⟩ :: r) :=
  Separated.cons_iff.mpr ⟨⟨hle, hstop⟩, hbefore, hsep⟩

/-- Every position of a sorted vector is at most the end of its last range. -/
theorem le_getLast {r : List Range} (hsep : Separated uint64Max r)
    (hne : r ≠ []) {x : Nat} (hx : Covers r x) :
    x ≤ (r.getLast hne).last := by
  have hsplit := List.dropLast_append_getLast hne
  rw [← hsplit] at hsep hx
  exact hsep.le_last hx

/-- Every range of a sorted vector ends no later than the last one. -/
theorem last_le_getLast {r : List Range} (hsep : Separated uint64Max r)
    (hne : r ≠ []) {other : Range} (hother : other ∈ r) :
    other.last ≤ (r.getLast hne).last :=
  le_getLast hsep hne ⟨other, hother, (hsep.valid other hother).1, le_rfl⟩

/-- Every range of a sorted vector starts no earlier than the first one. -/
theorem first_le_of_mem {front : Range} {tail : List Range}
    (hsep : Separated uint64Max (front :: tail)) {other : Range}
    (hother : other ∈ front :: tail) : front.first ≤ other.first :=
  hsep.first_le ⟨other, hother, le_rfl, (hsep.valid other hother).1⟩

theorem addForward_spec (front : Range) (tail : List Range) (start stop : Nat)
    (hsep : Separated uint64Max (front :: tail)) (hle : start ≤ stop)
    (hstop : stop ≤ uint64Max) :
    (addForward front tail start stop).WF ∧
      ∀ x, (addForward front tail start stop).Mem x ↔
        Covers (front :: tail) x ∨ (start ≤ x ∧ x ≤ stop) := by
  unfold addForward
  simp only
  split
  · case _ hlow =>
      -- in front of the first range
      have hbefore : ∀ other ∈ front :: tail, stop + 1 < other.first := by
        intro other hother
        have := first_le_of_mem hsep hother
        omega
      split
      · case _ hsingle =>
          subst hsingle
          refine ⟨?_, fun x => by simp [Interval.Mem]⟩
          show Separated uint64Max ([front] ++ [(⟨start, stop⟩ : Range)]).reverse
          exact separated_cons hsep hle hstop hbefore
      · refine ⟨separated_cons hsep hle hstop hbefore, fun x => ?_⟩
        rw [mem_mk, covers_cons]
        exact or_comm
  · case _ hnotLow =>
      have hne : front :: tail ≠ [] := List.cons_ne_nil _ _
      have hlastMem := List.getLast_mem hne
      have hlast := hsep.valid _ hlastMem
      split
      · case _ hhigh =>
          -- behind the last range
          refine ⟨?_, fun x => by simp [Interval.Mem, or_assoc]⟩
          refine separated_snoc hsep hle hstop ?_
          intro other hother
          have := last_le_getLast hsep hne hother
          omega
      · split
        · case _ hinLast =>
            -- the last range grows
            have hsplit := List.dropLast_append_getLast hne
            have hsep' := hsep
            rw [← hsplit] at hsep'
            obtain ⟨hinit, hback, hcross⟩ := Separated.append_iff.mp hsep'
            refine ⟨?_, ?_⟩
            · refine Separated.append_iff.mpr ⟨hinit, ?_, ?_⟩
              · rw [Separated.singleton_iff]
                simp only
                omega
              · intro a ha b hb
                rw [List.mem_singleton] at hb
                subst hb
                exact hcross a ha ((front :: tail).getLast hne)
                  (List.mem_singleton.mpr rfl)
            · intro x
              rw [mem_mk, covers_append]
              conv_rhs => rw [← hsplit]
              rw [covers_append, or_assoc]
              apply or_congr_right
              simp only [covers_cons, not_covers_nil, or_false, Interval.Mem]
              omega
        · exact insertMiddle_spec _ start stop hsep hle hstop

/-- **`add` is set union.**  It keeps the ranges canonical in either direction
and adds exactly the positions of `[start, stop]`. -/
theorem addRange_spec (e : Exposure) (start stop : Nat) (hwf : e.WF)
    (hle : start ≤ stop) (hstop : stop ≤ uint64Max) :
    (e.addRange start stop).WF ∧
      ∀ x, (e.addRange start stop).Mem x ↔
        e.Mem x ∨ (start ≤ x ∧ x ≤ stop) := by
  obtain ⟨r, reversed⟩ := e
  unfold addRange
  cases r with
  | nil =>
      refine ⟨?_, fun x => by simp [Interval.Mem]⟩
      cases reversed <;> exact Separated.singleton_iff.mpr ⟨hle, hstop⟩
  | cons front tail =>
      simp only
      split
      · case _ hdown =>
          obtain ⟨hrev, -, hlow⟩ := hdown
          subst hrev
          refine ⟨?_, fun x => by simp [Interval.Mem, or_assoc]⟩
          have hsep : Separated uint64Max (front :: tail).reverse := hwf
          show Separated uint64Max (front :: tail ++ [(⟨start, stop⟩ : Range)]).reverse
          rw [List.reverse_append]
          refine separated_cons hsep hle hstop ?_
          -- in the descending vector the back is the lowest range
          have hsplit : (front :: tail).reverse =
              (front :: tail).getLast (List.cons_ne_nil _ _) ::
                ((front :: tail).dropLast).reverse := by
            conv_lhs => rw [← List.dropLast_append_getLast
              (List.cons_ne_nil front tail)]
            simp
          intro other hother
          rw [hsplit] at hother hsep
          have := first_le_of_mem hsep hother
          omega
      · have hcovers := covers_list ⟨front :: tail, reversed⟩
        unfold list at hcovers
        unfold WF list at hwf
        split
        · case _ hnil =>
            exfalso
            cases reversed <;> simp [normalize] at hnil
        · case _ front' tail' hnorm =>
            rw [hnorm] at hwf hcovers
            obtain ⟨hkeep, hmem⟩ :=
              addForward_spec front' tail' start stop hwf hle hstop
            exact ⟨hkeep, fun x => by rw [hmem, hcovers]⟩

/-- `add` succeeds on a valid range. -/
theorem add_spec {e e' : Exposure} {start stop : Nat} (hwf : e.WF)
    (hstop : stop ≤ uint64Max) (hadd : e.add start stop = some e') :
    e'.WF ∧ ∀ x, e'.Mem x ↔ e.Mem x ∨ (start ≤ x ∧ x ≤ stop) := by
  unfold add at hadd
  split at hadd
  · case _ hle =>
      cases hadd
      exact addRange_spec e start stop hwf hle hstop
  · cases hadd

/-- `add_os` adds the `size` positions from `offset` on, as long as they fit
into 64 bits. -/
theorem addOs_spec (e : Exposure) (offset size : Nat) (hwf : e.WF)
    (hfits : offset + size ≤ 2 ^ 64) :
    ∃ e', e.addOs offset size = some e' ∧ e'.WF ∧
      ∀ x, e'.Mem x ↔ e.Mem x ∨ (offset ≤ x ∧ x < offset + size) := by
  unfold addOs
  split
  · case _ hpos =>
      have hmod : (offset + size - 1) % 2 ^ 64 = offset + size - 1 :=
        Nat.mod_eq_of_lt (by omega)
      have hle : offset ≤ offset + size - 1 := by omega
      have hmax : offset + size - 1 ≤ uint64Max := by
        unfold uint64Max
        omega
      obtain ⟨hkeep, hmem⟩ :=
        addRange_spec e offset (offset + size - 1) hwf hle hmax
      refine ⟨e.addRange offset (offset + size - 1), ?_, hkeep, ?_⟩
      · rw [hmod, add, if_pos hle]
      · intro x
        rw [hmem]
        apply or_congr_right
        omega
  · case _ hzero =>
      refine ⟨e, rfl, hwf, fun x => ?_⟩
      have : ¬ (offset ≤ x ∧ x < offset + size) := by omega
      simp [this]

/-- When `add_os` passes its assertion, the range did not leave the 64-bit
positions. -/
theorem addOs_eq_some {e e' : Exposure} {offset size : Nat} (hwf : e.WF)
    (hoffset : offset < 2 ^ 64) (hsize : size < 2 ^ 64)
    (hadd : e.addOs offset size = some e') :
    e'.WF ∧ ∀ x, e'.Mem x ↔ e.Mem x ∨ (offset ≤ x ∧ x < offset + size) := by
  have hfits : offset + size ≤ 2 ^ 64 := by
    by_contra hover
    unfold addOs add at hadd
    rw [if_pos (by omega), if_neg (by omega)] at hadd
    cases hadd
  obtain ⟨e'', hadd', hspec⟩ := addOs_spec e offset size hwf hfits
  rw [hadd] at hadd'
  cases hadd'
  exact hspec

/-! ## `fetch` returns and removes a hull -/

/-- What `fetch` leaves behind: everything if the memory is mapped, and
otherwise everything outside the fetched region. -/
def Kept (start stop : Nat) (isMapped : Bool) (x : Nat) : Prop :=
  isMapped = true ∨ ¬ (start ≤ x ∧ x ≤ stop)

/-- What is left of one range once `[start, stop]` has been fetched. -/
def remains (start stop : Nat) (isMapped : Bool) (s : Range) : List Range :=
  if isMapped ∨ s.last < start ∨ stop < s.first then [s]
  else
    (if s.first < start then [⟨s.first, start - 1⟩] else []) ++
      (if s.last > stop then [⟨stop + 1, s.last⟩] else [])

/-- The running result of `fetch` after one more range. -/
def found (start stop : Nat) (retval s : Range) : Range :=
  if s.last < start ∨ stop < s.first then retval
  else retval.extend ⟨max s.first start, min s.last stop⟩

theorem covers_remains (start stop : Nat) (isMapped : Bool) (s : Range)
    (x : Nat) :
    Covers (remains start stop isMapped s) x ↔
      s.Mem x ∧ Kept start stop isMapped x := by
  unfold remains Kept
  by_cases hmapped : isMapped = true
  · simp [hmapped]
  · by_cases hout : s.last < start ∨ stop < s.first
    · rw [if_pos (Or.inr hout)]
      simp only [covers_cons, not_covers_nil, or_false, hmapped, false_or,
        Bool.false_eq_true, Interval.Mem]
      omega
    · rw [if_neg (by simp [hmapped, hout])]
      by_cases hleft : s.first < start
      · by_cases hright : s.last > stop
        · simp only [hleft, hright, if_true, covers_append, covers_cons,
            not_covers_nil, or_false, hmapped, false_or, Bool.false_eq_true,
            Interval.Mem]
          omega
        · simp only [hleft, hright, if_true, if_false, covers_append,
            covers_cons, not_covers_nil, or_false, hmapped, false_or,
            Bool.false_eq_true, Interval.Mem]
          omega
      · by_cases hright : s.last > stop
        · simp only [hleft, hright, if_true, if_false, covers_append,
            covers_cons, not_covers_nil, or_false, hmapped, false_or,
            Bool.false_eq_true, Interval.Mem]
          omega
        · simp only [hleft, hright, if_false, covers_append, not_covers_nil,
            or_false, hmapped, false_or, Bool.false_eq_true, Interval.Mem,
            false_iff]
          omega

theorem separated_remains {start stop : Nat} (isMapped : Bool) {s : Range}
    (hs : s.first ≤ s.last ∧ s.last ≤ uint64Max) (hle : start ≤ stop) :
    Separated uint64Max (remains start stop isMapped s) := by
  unfold remains
  split
  · exact Separated.singleton_iff.mpr hs
  · case _ hhit =>
      have hmem : ∀ piece ∈ (if s.first < start then
          [(⟨s.first, start - 1⟩ : Range)] else []),
          piece = ⟨s.first, start - 1⟩ ∧ s.first < start := by
        intro piece hpiece
        split at hpiece
        · case _ hleft => exact ⟨List.mem_singleton.mp hpiece, hleft⟩
        · cases hpiece
      refine Separated.append_iff.mpr ⟨?_, ?_, ?_⟩
      · split
        · rw [Separated.singleton_iff]
          simp only
          omega
        · exact Separated.nil
      · split
        · rw [Separated.singleton_iff]
          simp only
          omega
        · exact Separated.nil
      · intro a ha b hb
        obtain ⟨rfl, hleft⟩ := hmem a ha
        split at hb
        · rw [List.mem_singleton.mp hb]
          simp only
          omega
        · cases hb

/-- Ranges past the fetched region are neither found nor changed. -/
theorem fetchLoop_past {start stop : Nat} {isMapped : Bool} {retval : Range}
    {l : List Range} (hpast : ∀ s ∈ l, stop < s.first) :
    fetchLoop start stop isMapped retval l = (retval, l) := by
  cases l with
  | nil => rfl
  | cons s rest =>
      unfold fetchLoop
      rw [if_pos (hpast s (by simp))]

theorem foldl_found_past {start stop : Nat} {retval : Range} {l : List Range}
    (hpast : ∀ s ∈ l, stop < s.first) :
    l.foldl (found start stop) retval = retval := by
  induction l generalizing retval with
  | nil => rfl
  | cons s rest ih =>
      have hhead : found start stop retval s = retval :=
        if_pos (Or.inr (hpast s (by simp)))
      rw [List.foldl_cons, hhead]
      exact ih fun other hother => hpast other (List.mem_cons_of_mem _ hother)

theorem flatMap_remains_past {start stop : Nat} {isMapped : Bool}
    {l : List Range} (hpast : ∀ s ∈ l, stop < s.first) :
    l.flatMap (remains start stop isMapped) = l := by
  induction l with
  | nil => rfl
  | cons s rest ih =>
      have hhead : remains start stop isMapped s = [s] :=
        if_pos (Or.inr (Or.inr (hpast s (by simp))))
      rw [List.flatMap_cons, hhead,
        ih fun other hother => hpast other (List.mem_cons_of_mem _ hother)]
      rfl

/-- **The loop of `fetch`, range by range.**  The early exits and in-place
edits of the source amount to treating every range on its own. -/
theorem fetchLoop_eq (start stop : Nat) (isMapped : Bool) (retval : Range)
    (l : List Range) (hsep : Separated uint64Max l) :
    fetchLoop start stop isMapped retval l =
      (l.foldl (found start stop) retval,
        l.flatMap (remains start stop isMapped)) := by
  induction l generalizing retval with
  | nil => rfl
  | cons s rest ih =>
      obtain ⟨hs, hgap, hrest⟩ := Separated.cons_iff.mp hsep
      have hpastRest : stop < s.last → ∀ other ∈ rest, stop < other.first := by
        intro hover other hother
        have := hgap other hother
        omega
      by_cases hpast : s.first > stop
      · have hall : ∀ other ∈ s :: rest, stop < other.first := by
          intro other hother
          have := first_le_of_mem hsep hother
          omega
        rw [fetchLoop_past hall, foldl_found_past hall, flatMap_remains_past hall]
      · rw [List.foldl_cons, List.flatMap_cons]
        unfold fetchLoop
        rw [if_neg hpast]
        by_cases hhit : s.last ≥ start
        · have hmiss : ¬ (s.last < start ∨ stop < s.first) := by omega
          have hfound : found start stop retval s =
              retval.extend ⟨max s.first start, min s.last stop⟩ := if_neg hmiss
          rw [if_pos hhit, hfound]
          simp only
          by_cases hmapped : isMapped = true
          · rw [if_pos hmapped, ih _ hrest]
            have hpiece : remains start stop isMapped s = [s] :=
              if_pos (Or.inl hmapped)
            rw [hpiece]
            rfl
          · have hpieces : remains start stop isMapped s =
                (if s.first < start then [⟨s.first, start - 1⟩] else []) ++
                  (if s.last > stop then [⟨stop + 1, s.last⟩] else []) :=
              if_neg (by simp only [hmapped]; exact fun h => hmiss (by simpa using h))
            rw [if_neg hmapped, hpieces]
            by_cases hleft : s.first < start
            · by_cases hright : s.last > stop
              · -- split in two: the loop stops here
                have hpastHere := hpastRest hright
                rw [if_neg (by omega), if_pos ⟨hleft, hright⟩,
                  flatMap_remains_past hpastHere]
                simp only [hleft, hright, if_true]
                rw [foldl_found_past hpastHere]
                rfl
              · rw [if_neg (by omega), if_neg (by omega), if_pos hleft, ih _ hrest]
                simp only [hleft, hright, if_true, if_false]
                rfl
            · by_cases hright : s.last > stop
              · -- remove from start: the loop stops here as well
                have hpastHere := hpastRest hright
                rw [if_neg (by omega), if_neg (by omega), if_neg hleft,
                  flatMap_remains_past hpastHere]
                simp only [hleft, hright, if_true, if_false]
                rw [foldl_found_past hpastHere]
                rfl
              · rw [if_pos (by omega), ih _ hrest]
                simp only [hleft, hright, if_false]
                rfl
        · rw [if_neg hhit, ih _ hrest]
          have hpiece : remains start stop isMapped s = [s] :=
            if_pos (Or.inr (Or.inl (by omega)))
          have hfound : found start stop retval s = retval :=
            if_pos (Or.inl (by omega))
          rw [hpiece, hfound]
          rfl

/-- The ranges left by `fetch` cover what is kept, in canonical form. -/
theorem flatMap_remains_spec (start stop : Nat) (isMapped : Bool)
    (l : List Range) (hsep : Separated uint64Max l) (hle : start ≤ stop) :
    Separated uint64Max (l.flatMap (remains start stop isMapped)) ∧
      ∀ x, Covers (l.flatMap (remains start stop isMapped)) x ↔
        Covers l x ∧ Kept start stop isMapped x := by
  induction l with
  | nil => exact ⟨Separated.nil, fun x => by simp⟩
  | cons s rest ih =>
      obtain ⟨hs, hgap, hrest⟩ := Separated.cons_iff.mp hsep
      obtain ⟨ihSep, ihCover⟩ := ih hrest
      have hpieces := separated_remains isMapped hs hle
      rw [List.flatMap_cons]
      constructor
      · refine Separated.append_iff.mpr ⟨hpieces, ihSep, ?_⟩
        intro a ha b hb
        -- both ends are covered by the old ranges, which had the gap
        have ha' : s.Mem a.last :=
          ((covers_remains start stop isMapped s a.last).mp
            ⟨a, ha, (hpieces.valid a ha).1, le_rfl⟩).1
        obtain ⟨other, hother, hfirst, -⟩ :=
          ((ihCover b.first).mp ⟨b, hb, le_rfl, (ihSep.valid b hb).1⟩).1
        have := hgap other hother
        have := ha'.2
        omega
      · intro x
        rw [covers_append, covers_remains, ihCover, covers_cons, or_and_right]

/-- The running result of `fetch` is the hull of everything found. -/
theorem hull_foldl_found (start stop : Nat) (retval : Range) (l : List Range)
    (P : Nat → Prop) (hsep : Separated uint64Max l) (hle : start ≤ stop)
    (hhull : Hull retval P) :
    Hull (l.foldl (found start stop) retval)
      (fun x => P x ∨ (Covers l x ∧ start ≤ x ∧ x ≤ stop)) := by
  induction l generalizing retval P with
  | nil => exact hhull.congr fun x => by simp
  | cons s rest ih =>
      obtain ⟨hs, -, hrest⟩ := Separated.cons_iff.mp hsep
      have hnext : Hull (found start stop retval s)
          (fun x => P x ∨ (s.Mem x ∧ start ≤ x ∧ x ≤ stop)) := by
        unfold found
        split
        · case _ hmiss =>
            refine hhull.congr fun x => ?_
            have : ¬ (s.Mem x ∧ start ≤ x ∧ x ≤ stop) := by
              unfold Interval.Mem
              omega
            simp [this]
        · case _ hhit =>
            have hpart : Interval.Valid ⟨max s.first start, min s.last stop⟩ := by
              unfold Interval.Valid
              simp only
              omega
            refine (hhull.extend hpart).congr fun x => or_congr_right ?_
            simp only [Interval.Mem]
            omega
      rw [List.foldl_cons]
      refine (ih _ _ hrest hnext).congr fun x => ?_
      rw [covers_cons, or_and_right, or_assoc]

/-- The single-range branch agrees with the general treatment. -/
theorem fetchSingle_eq (start stop : Nat) (isMapped : Bool) (s : Range) :
    fetchSingle start stop isMapped s =
      ([s].foldl (found start stop) Range.invalid,
        [s].flatMap (remains start stop isMapped)) := by
  have hinvalid : Interval.extend Range.invalid
      ⟨max s.first start, min s.last stop⟩ =
        ⟨max s.first start, min s.last stop⟩ := rfl
  unfold fetchSingle
  simp only [List.foldl_cons, List.foldl_nil, List.flatMap_cons,
    List.flatMap_nil, List.append_nil]
  unfold found remains
  by_cases hmiss : s.last < start ∨ s.first > stop
  · have hmiss' : s.last < start ∨ stop < s.first := hmiss
    rw [if_pos hmiss, if_pos hmiss', if_pos (Or.inr hmiss')]
  · have hmiss' : ¬ (s.last < start ∨ stop < s.first) := hmiss
    rw [if_neg hmiss, if_neg hmiss', hinvalid]
    by_cases hmapped : isMapped = true
    · rw [if_pos hmapped, if_pos (Or.inl hmapped)]
    · have hpieces : ¬ (isMapped = true ∨ s.last < start ∨ stop < s.first) := by
        rintro (h | h)
        · exact hmapped h
        · exact hmiss' h
      rw [if_neg hmapped, if_neg hpieces]
      by_cases hleft : s.first < start
      · by_cases hright : s.last > stop
        · rw [if_neg (by omega), if_pos ⟨hleft, hright⟩, if_pos hleft, if_pos hright]
          rfl
        · rw [if_neg (by omega), if_neg (by omega), if_pos hleft, if_pos hleft,
            if_neg hright]
          rfl
      · by_cases hright : s.last > stop
        · rw [if_neg (by omega), if_neg (by omega), if_neg hleft, if_neg hleft,
            if_pos hright]
          rfl
        · rw [if_pos (by omega), if_neg hleft, if_neg hright]
          rfl

/-- **`fetch` returns and removes a hull.**  The result is the smallest range
around the exposed positions of `[start, stop]`; those positions stay exposed
only if the memory is mapped. -/
theorem fetchRange_spec (e : Exposure) (start stop : Nat) (isMapped : Bool)
    (hwf : e.WF) (hle : start ≤ stop) :
    Hull (e.fetchRange start stop isMapped).1
        (fun x => e.Mem x ∧ start ≤ x ∧ x ≤ stop) ∧
      (e.fetchRange start stop isMapped).2.WF ∧
      ∀ x, (e.fetchRange start stop isMapped).2.Mem x ↔
        e.Mem x ∧ Kept start stop isMapped x := by
  have hcovers := covers_list e
  have hsep : Separated uint64Max e.normalize.r := hwf
  have hinvalid : ¬ Interval.Valid Range.invalid := by decide
  have hnormWF : e.normalize.WF := by
    unfold WF
    rw [list_normalize]
    exact hwf
  have hnormMem : ∀ x, e.normalize.Mem x ↔ e.Mem x := fun x => hcovers x
  unfold list at hcovers
  unfold fetchRange
  cases hr : e.normalize.r with
  | nil =>
      rw [hr] at hcovers
      have hempty : ∀ x, ¬ e.Mem x := fun x hx => by simpa using (hcovers x).mpr hx
      refine ⟨Hull.empty (fun x hx => hempty x hx.1) hinvalid, hnormWF, fun x => ?_⟩
      rw [hnormMem]
      simp [hempty x]
  | cons front tail =>
      rw [hr] at hsep hcovers
      simp only
      split
      · case _ hout =>
          -- the region lies before the first or after the last range
          have hmiss : ∀ x, e.Mem x → ¬ (start ≤ x ∧ x ≤ stop) := by
            intro x hx
            have hx' := (hcovers x).mpr hx
            have hlow := hsep.first_le hx'
            have hhigh := le_getLast hsep (List.cons_ne_nil front tail) hx'
            omega
          refine ⟨Hull.empty (fun x hx => hmiss x hx.1 hx.2) hinvalid, hnormWF,
            fun x => ?_⟩
          rw [hnormMem]
          unfold Kept
          exact ⟨fun hx => ⟨hx, Or.inr (hmiss x hx)⟩, fun hx => hx.1⟩
      · have hresult : fetchSorted start stop isMapped (front :: tail) =
            ((front :: tail).foldl (found start stop) Range.invalid,
              (front :: tail).flatMap (remains start stop isMapped)) := by
          cases tail with
          | nil =>
              exact fetchSingle_eq start stop isMapped front
          | cons second rest =>
              exact fetchLoop_eq start stop isMapped Range.invalid _ hsep
        rw [hresult]
        obtain ⟨hkeep, hmem⟩ :=
          flatMap_remains_spec start stop isMapped (front :: tail) hsep hle
        have hhull := hull_foldl_found start stop Range.invalid (front :: tail)
          (fun _ => False) hsep hle (Hull.empty (fun x h => h) hinvalid)
        refine ⟨hhull.congr fun x => ?_, hkeep, fun x => ?_⟩
        · rw [false_or, hcovers]
        · rw [mem_mk, hmem, hcovers]

/-! ## `overlap` returns the hull of the shifted intersection -/

/-- The positions of `l` that are positions of `other` shifted up by `offset`;
what would leave the 64-bit range is dropped. -/
def Shared (offset : Nat) (l other : List Range) (x : Nat) : Prop :=
  Covers l x ∧ offset ≤ x ∧ Covers other (x - offset)

/-- No shifted position of a list whose first range leaves the 64-bit range is
a 64-bit position. -/
theorem not_covers_of_overflow {offset x : Nat} {o : Range}
    {other : List Range} (hsep : Separated uint64Max (o :: other))
    (hover : o.first > uint64Max - offset) (hoffset : offset ≤ x)
    (hx : x ≤ uint64Max) : ¬ Covers (o :: other) (x - offset) := by
  intro hcovers
  have := hsep.first_le hcovers
  omega

/-- Membership in a shifted range, for 64-bit positions. -/
theorem mem_shift_iff {offset x : Nat} {o : Range}
    (hx : x ≤ uint64Max) (hoffset : offset ≤ x) :
    o.Mem (x - offset) ↔
      o.first + offset ≤ x ∧ x ≤ shiftLast offset o.last := by
  unfold shiftLast Interval.Mem
  split <;> omega

/-- A range and a shifted range that are not apart meet in a non-empty range. -/
theorem valid_meet {offset : Nat} {i o : Range} (hi : i.first ≤ i.last)
    (ho : o.first ≤ o.last) (hfits : ¬ o.first > uint64Max - offset)
    (hoffset : offset ≤ uint64Max)
    (hleft : ¬ i.last < o.first + offset)
    (hright : ¬ shiftLast offset o.last < i.first) :
    Interval.Valid ⟨max i.first (o.first + offset),
      min i.last (shiftLast offset o.last)⟩ := by
  have hshift : o.first + offset ≤ shiftLast offset o.last := by
    unfold shiftLast
    split <;> omega
  unfold Interval.Valid
  simp only
  omega

/-- Once the shifted `o` reaches past `i`, `i` shares nothing with the rest. -/
theorem shared_drop_left {offset : Nat} {i o : Range} {iter other : List Range}
    (hsep : Separated uint64Max (i :: iter))
    (hother : Separated uint64Max (o :: other))
    (hlonger : i.last < shiftLast offset o.last) (x : Nat) :
    (Interval.Mem ⟨max i.first (o.first + offset),
        min i.last (shiftLast offset o.last)⟩ x ∨
      Shared offset iter (o :: other) x) ↔
      Shared offset (i :: iter) (o :: other) x := by
  obtain ⟨ho, hgapOther, htail⟩ := Separated.cons_iff.mp hother
  constructor
  · rintro (hx | ⟨hx, hoffset, hcov⟩)
    · have hmem : i.Mem x := by
        simp only [Interval.Mem] at hx ⊢
        omega
      have hoffset : offset ≤ x := by
        simp only [Interval.Mem] at hx
        omega
      have hcover : Covers (i :: iter) x := ⟨i, by simp, hmem⟩
      refine ⟨hcover, hoffset, o, by simp, ?_⟩
      refine (mem_shift_iff (hsep.le_bound hcover) hoffset).mpr ?_
      simp only [Interval.Mem] at hx
      omega
    · exact ⟨(covers_cons _ _ _).mpr (Or.inr hx), hoffset, hcov⟩
  · rintro ⟨hx, hoffset, hcov⟩
    have hbound := hsep.le_bound hx
    rcases (covers_cons _ _ _).mp hx with hmem | hmem
    · rcases (covers_cons _ _ _).mp hcov with hcov | ⟨later, hlater, hfirst, -⟩
      · left
        have := (mem_shift_iff hbound hoffset).mp hcov
        simp only [Interval.Mem] at hmem ⊢
        omega
      · exfalso
        have := hgapOther later hlater
        have := hmem.2
        unfold shiftLast at hlonger
        split at hlonger <;> omega
    · exact Or.inr ⟨hmem, hoffset, hcov⟩

/-- Once `i` reaches the end of the shifted `o`, `o` shares nothing with the
rest. -/
theorem shared_drop_right {offset : Nat} {i o : Range} {iter other : List Range}
    (hsep : Separated uint64Max (i :: iter))
    (hshorter : ¬ i.last < shiftLast offset o.last) (x : Nat) :
    (Interval.Mem ⟨max i.first (o.first + offset),
        min i.last (shiftLast offset o.last)⟩ x ∨
      Shared offset (i :: iter) other x) ↔
      Shared offset (i :: iter) (o :: other) x := by
  obtain ⟨hi, hgap, -⟩ := Separated.cons_iff.mp hsep
  constructor
  · rintro (hx | ⟨hx, hoffset, hcov⟩)
    · have hmem : i.Mem x := by
        simp only [Interval.Mem] at hx ⊢
        omega
      have hoffset : offset ≤ x := by
        simp only [Interval.Mem] at hx
        omega
      have hcover : Covers (i :: iter) x := ⟨i, by simp, hmem⟩
      refine ⟨hcover, hoffset, o, by simp, ?_⟩
      refine (mem_shift_iff (hsep.le_bound hcover) hoffset).mpr ?_
      simp only [Interval.Mem] at hx
      omega
    · exact ⟨hx, hoffset, (covers_cons _ _ _).mpr (Or.inr hcov)⟩
  · rintro ⟨hx, hoffset, hcov⟩
    have hbound := hsep.le_bound hx
    rcases (covers_cons _ _ _).mp hcov with hcov | hcov
    · have hshift := (mem_shift_iff hbound hoffset).mp hcov
      rcases (covers_cons _ _ _).mp hx with hmem | ⟨later, hlater, hfirst, -⟩
      · left
        simp only [Interval.Mem] at hmem ⊢
        omega
      · exfalso
        have := hgap later hlater
        omega
    · exact Or.inr ⟨hx, hoffset, hcov⟩

/-- The sweep extends the running result to the hull of everything shared. -/
theorem overlapSweep_spec (offset rounds : Nat) (l other : List Range)
    (retval : Range) (P : Nat → Prop)
    (hsep : Separated uint64Max l) (hother : Separated uint64Max other)
    (hoffset : offset ≤ uint64Max)
    (hrounds : l.length + other.length ≤ rounds)
    (hhull : Hull retval P) :
    Hull (overlapSweep offset rounds l other retval)
      (fun x => P x ∨ Shared offset l other x) := by
  induction rounds generalizing l other retval P with
  | zero =>
      have hl : l = [] := List.length_eq_zero_iff.mp (by omega)
      subst hl
      exact hhull.congr fun x => by simp [Shared]
  | succ rounds ih =>
      cases l with
      | nil => exact hhull.congr fun x => by simp [Shared]
      | cons i iter =>
          cases other with
          | nil => exact hhull.congr fun x => by simp [Shared]
          | cons o other =>
              obtain ⟨hi, hgap, hiter⟩ := Separated.cons_iff.mp hsep
              obtain ⟨ho, hgapOther, htail⟩ := Separated.cons_iff.mp hother
              simp only [List.length_cons] at hrounds
              unfold overlapSweep
              split
              · case _ hover =>
                  refine hhull.congr fun x => ?_
                  have : ¬ Shared offset (i :: iter) (o :: other) x := by
                    rintro ⟨hx, hoffset, hcovers⟩
                    exact not_covers_of_overflow hother hover hoffset
                      (hsep.le_bound hx) hcovers
                  simp [this]
              · case _ hfits =>
                  simp only
                  split
                  · case _ hbefore =>
                      -- `i` ends before the shifted `o` starts
                      refine (ih iter (o :: other) retval P hiter hother
                        (by simp only [List.length_cons]; omega) hhull).congr
                        fun x => or_congr_right ?_
                      unfold Shared
                      rw [covers_cons i]
                      refine ⟨fun h => ⟨Or.inr h.1, h.2⟩, ?_⟩
                      rintro ⟨hx | hx, hoffset, hcovers⟩
                      · have := hother.first_le hcovers
                        have := hx.2
                        omega
                      · exact ⟨hx, hoffset, hcovers⟩
                  · case _ hreach =>
                      split
                      · case _ hbefore =>
                          -- the shifted `o` ends before `i` starts
                          refine (ih (i :: iter) other retval P hsep htail
                            (by simp only [List.length_cons]; omega) hhull).congr
                            fun x => or_congr_right ?_
                          unfold Shared
                          rw [covers_cons o]
                          refine ⟨fun h => ⟨h.1, h.2.1, Or.inr h.2.2⟩, ?_⟩
                          rintro ⟨hx, hoffset, hcovers | hcovers⟩
                          · have hlow := hsep.first_le hx
                            have hbound := hsep.le_bound hx
                            have := (mem_shift_iff hbound hoffset).mp hcovers
                            omega
                          · exact ⟨hx, hoffset, hcovers⟩
                      · case _ htouch =>
                          have hpart :=
                            valid_meet hi.1 ho.1 hfits hoffset hreach htouch
                          have hnext := hhull.extend hpart
                          split
                          · case _ hlonger =>
                              refine (ih iter (o :: other) _ _ hiter hother
                                (by simp only [List.length_cons]; omega) hnext).congr
                                fun x => ?_
                              rw [or_assoc]
                              exact or_congr_right
                                (shared_drop_left hsep hother hlonger x)
                          · case _ hshorter =>
                              refine (ih (i :: iter) other _ _ hsep htail
                                (by simp only [List.length_cons]; omega) hnext).congr
                                fun x => ?_
                              rw [or_assoc]
                              exact or_congr_right
                                (shared_drop_right hsep hshorter x)

/-- A sweep that starts from a valid range, or that has found one, ends with a
valid one; otherwise it hands its start back. -/
theorem overlapSweep_valid_or_eq (offset rounds : Nat) (l other : List Range)
    (retval : Range) (hsep : Separated uint64Max l)
    (hother : Separated uint64Max other) (hoffset : offset ≤ uint64Max) :
    (overlapSweep offset rounds l other retval).Valid ∨
      overlapSweep offset rounds l other retval = retval := by
  induction rounds generalizing l other retval with
  | zero => exact Or.inr rfl
  | succ rounds ih =>
      cases l with
      | nil => exact Or.inr rfl
      | cons i iter =>
          cases other with
          | nil => exact Or.inr rfl
          | cons o other =>
              obtain ⟨hi, -, hiter⟩ := Separated.cons_iff.mp hsep
              obtain ⟨ho, -, htail⟩ := Separated.cons_iff.mp hother
              unfold overlapSweep
              split
              · exact Or.inr rfl
              · case _ hfits =>
                  simp only
                  split
                  · exact ih iter (o :: other) retval hiter hother
                  · case _ hreach =>
                      split
                      · exact ih (i :: iter) other retval hsep htail
                      · case _ htouch =>
                          have hpart :=
                            valid_meet hi.1 ho.1 hfits hoffset hreach htouch
                          have hfound := retval.extend_valid hpart
                          left
                          split
                          · rcases ih iter (o :: other) _ hiter hother with
                              hvalid | heq
                            · exact hvalid
                            · rw [heq]
                              exact hfound
                          · rcases ih (i :: iter) other _ hsep htail with
                              hvalid | heq
                            · exact hvalid
                            · rw [heq]
                              exact hfound

/-- Lists that lie apart share nothing. -/
theorem not_shared_of_apart {offset x : Nat} {front otherFront : Range}
    {tail otherTail : List Range} (hsep : Separated uint64Max (front :: tail))
    (hsepOther : Separated uint64Max (otherFront :: otherTail))
    (hapart : shiftLast offset
          ((otherFront :: otherTail).getLast (List.cons_ne_nil _ _)).last < front.first ∨
        otherFront.first + offset >
          ((front :: tail).getLast (List.cons_ne_nil _ _)).last) :
    ¬ Shared offset (front :: tail) (otherFront :: otherTail) x := by
  rintro ⟨hx, hoffset, hcov⟩
  have hbound := hsep.le_bound hx
  have hlow := hsep.first_le hx
  have hhigh := le_getLast hsep (List.cons_ne_nil front tail) hx
  have hlowOther := hsepOther.first_le hcov
  have hhighOther := le_getLast hsepOther
    (List.cons_ne_nil otherFront otherTail) hcov
  unfold shiftLast at hapart
  split at hapart <;> omega

/-- What two single ranges share. -/
theorem shared_singleton_iff {offset x : Nat} {i o : Range}
    (hbound : i.last ≤ uint64Max) :
    Shared offset [i] [o] x ↔
      Interval.Mem ⟨max i.first (o.first + offset),
        min i.last (shiftLast offset o.last)⟩ x := by
  unfold Shared
  simp only [covers_cons, not_covers_nil, or_false]
  constructor
  · rintro ⟨hmem, hoffset, hcov⟩
    simp only [Interval.Mem] at hmem ⊢
    have hshifted := (mem_shift_iff (by omega) hoffset).mp hcov
    omega
  · intro hx
    simp only [Interval.Mem] at hx
    have hoffset : offset ≤ x := by omega
    refine ⟨⟨by omega, by omega⟩, hoffset, ?_⟩
    exact (mem_shift_iff (by omega) hoffset).mpr (by omega)

/-- **`overlap` returns the hull of the shifted intersection**, on the fast
path for two single ranges, on the early exits and in the general sweep. -/
theorem overlap_spec (e other : Exposure) (offset : Nat) (hwf : e.WF)
    (hother : other.WF) (hoffset : offset ≤ uint64Max) :
    Hull (e.overlap other offset)
      (fun x => e.Mem x ∧ offset ≤ x ∧ other.Mem (x - offset)) := by
  have hinvalid : ¬ Interval.Valid Range.invalid := by decide
  have hcovers := covers_list e
  have hcoversOther := covers_list other
  have hsep : Separated uint64Max e.normalize.r := hwf
  have hsepOther : Separated uint64Max other.normalize.r := hother
  unfold list at hcovers hcoversOther
  unfold overlap
  cases hr : e.normalize.r with
  | nil =>
      rw [hr] at hcovers
      refine Hull.empty (fun x hx => ?_) hinvalid
      simpa using (hcovers x).mpr hx.1
  | cons front tail =>
      cases hro : other.normalize.r with
      | nil =>
          rw [hro] at hcoversOther
          refine Hull.empty (fun x hx => ?_) hinvalid
          simpa using (hcoversOther _).mpr hx.2.2
      | cons otherFront otherTail =>
          rw [hr] at hcovers hsep
          rw [hro] at hcoversOther hsepOther
          -- what the two exposures share, in terms of their ranges
          have hshared : ∀ x, (e.Mem x ∧ offset ≤ x ∧ other.Mem (x - offset)) ↔
              Shared offset (front :: tail) (otherFront :: otherTail) x := by
            intro x
            unfold Shared
            rw [hcovers, hcoversOther]
          simp only
          split
          · case _ hover =>
              -- the shifted ranges would leave the 64-bit positions
              refine Hull.empty (fun x hx => ?_) hinvalid
              obtain ⟨hx, hoffset, hcov⟩ := (hshared x).mp hx
              exact not_covers_of_overflow hsepOther hover hoffset
                (hsep.le_bound hx) hcov
          · case _ hfits =>
              split
              · case _ hapart =>
                  refine Hull.empty (fun x hx => ?_) hinvalid
                  exact not_shared_of_apart hsep hsepOther hapart
                    ((hshared x).mp hx)
              · case _ hnear =>
                  split
                  · case _ hsingle =>
                      obtain ⟨rfl, rfl⟩ := hsingle
                      simp only [List.getLast_singleton, not_or] at hnear
                      have hfront := Separated.singleton_iff.mp hsep
                      have hvalid := valid_meet hfront.1
                        (Separated.singleton_iff.mp hsepOther).1
                        hfits hoffset (by omega) hnear.1
                      have hone := (Hull.empty (P := fun _ => False)
                        (fun x h => h) hinvalid).extend hvalid
                      refine hone.congr fun x => ?_
                      rw [hshared, false_or, shared_singleton_iff hfront.2]
                  · have hsweep := overlapSweep_spec offset _ (front :: tail)
                      (otherFront :: otherTail) Range.invalid (fun _ => False)
                      hsep hsepOther hoffset le_rfl (Hull.empty (fun x h => h) hinvalid)
                    refine hsweep.congr fun x => ?_
                    rw [hshared, false_or]

/-- What `overlap` returns when it is not valid: the early exits and a sweep
that finds nothing agree on it. -/
theorem overlap_valid_or_eq (e other : Exposure) (offset : Nat) (hwf : e.WF)
    (hother : other.WF) (hoffset : offset ≤ uint64Max) :
    (e.overlap other offset).Valid ∨ e.overlap other offset = Range.invalid := by
  have hsep : Separated uint64Max e.normalize.r := hwf
  have hsepOther : Separated uint64Max other.normalize.r := hother
  unfold overlap
  split
  · case _ front tail otherFront otherTail hr hro =>
      rw [hr] at hsep
      rw [hro] at hsepOther
      simp only
      split
      · exact Or.inr rfl
      · case _ hfits =>
          split
          · exact Or.inr rfl
          · case _ hnear =>
              split
              · case _ hsingle =>
                  obtain ⟨rfl, rfl⟩ := hsingle
                  simp only [List.getLast_singleton, not_or] at hnear
                  exact Or.inl (valid_meet (Separated.singleton_iff.mp hsep).1
                    (Separated.singleton_iff.mp hsepOther).1 hfits hoffset
                    (by omega) hnear.1)
              · exact overlapSweep_valid_or_eq offset _ _ _ _ hsep hsepOther hoffset
  · exact Or.inr rfl

/-- The early exits and the path for two single ranges return what the general
sweep over the two ascending lists returns. -/
theorem overlap_eq_sweep (e other : Exposure) (offset : Nat) (hwf : e.WF)
    (hother : other.WF) (hoffset : offset ≤ uint64Max) :
    e.overlap other offset =
      overlapSweep offset (e.list.length + other.list.length) e.list other.list
        Range.invalid := by
  have hinvalid : ¬ Interval.Valid Range.invalid := by decide
  have hhull := overlap_spec e other offset hwf hother hoffset
  have hsweep : Hull
      (overlapSweep offset (e.list.length + other.list.length) e.list other.list
        Range.invalid)
      (fun x => e.Mem x ∧ offset ≤ x ∧ other.Mem (x - offset)) := by
    refine (overlapSweep_spec offset _ e.list other.list Range.invalid
      (fun _ => False) hwf hother hoffset le_rfl
      (Hull.empty (fun x h => h) hinvalid)).congr fun x => ?_
    rw [false_or, Shared, covers_list, covers_list]
  by_cases hvalid : (e.overlap other offset).Valid
  · exact hhull.unique hsweep hvalid
  · have hvalidSweep : ¬ (overlapSweep offset (e.list.length + other.list.length)
        e.list other.list Range.invalid).Valid := by
      intro h
      exact hvalid (hhull.valid_iff.mpr (hsweep.valid_iff.mp h))
    have hleft := (overlap_valid_or_eq e other offset hwf hother
      hoffset).resolve_left hvalid
    have hright := (overlapSweep_valid_or_eq offset _ _ _ Range.invalid hwf hother
      hoffset).resolve_left hvalidSweep
    rw [hleft, hright]

end Exposure
end RangeTracking
end Lavatube
