import Mathlib.Tactic

/-!
# Sets of numbers as lists of closed intervals

A finite union of closed intervals of natural numbers, kept as a list in which
neighbours are separated by at least one missing number.

* `Covers` — the set a list of intervals stands for.
* `Separated` — the canonical form: non-empty intervals, increasing, with a gap
  between any two of them.
* `Hull` — the smallest interval around a set, with the convention that an
  interval whose ends are in the wrong order stands for "the set is empty".
* `Interval.extend` — the running hull of a scan, with its one-step rule
  `Hull.extend`.
-/

namespace IntervalList

/-- A closed interval; it is empty when `last < first`. -/
structure Interval where
  first : Nat
  last : Nat
deriving DecidableEq, Repr

/-- The interval contains at least one number. -/
def Interval.Valid (interval : Interval) : Prop :=
  interval.first ≤ interval.last

instance (interval : Interval) : Decidable interval.Valid :=
  inferInstanceAs (Decidable (interval.first ≤ interval.last))

/-- Membership in one interval. -/
def Interval.Mem (interval : Interval) (x : Nat) : Prop :=
  interval.first ≤ x ∧ x ≤ interval.last

instance (interval : Interval) (x : Nat) : Decidable (interval.Mem x) :=
  inferInstanceAs (Decidable (_ ∧ _))

/-- The set of numbers a list of intervals stands for. -/
def Covers (intervals : List Interval) (x : Nat) : Prop :=
  ∃ interval ∈ intervals, interval.Mem x

instance (intervals : List Interval) (x : Nat) :
    Decidable (Covers intervals x) :=
  inferInstanceAs (Decidable (∃ interval ∈ intervals, interval.Mem x))

@[simp] theorem not_covers_nil (x : Nat) : ¬ Covers [] x := by
  simp [Covers]

@[simp] theorem covers_cons (interval : Interval) (rest : List Interval)
    (x : Nat) :
    Covers (interval :: rest) x ↔ interval.Mem x ∨ Covers rest x := by
  simp [Covers]

@[simp] theorem covers_append (left right : List Interval) (x : Nat) :
    Covers (left ++ right) x ↔ Covers left x ∨ Covers right x := by
  simp [Covers, or_and_right, exists_or]

@[simp] theorem covers_reverse (intervals : List Interval) (x : Nat) :
    Covers intervals.reverse x ↔ Covers intervals x := by
  simp [Covers]

/-- Canonical form below `bound`: non-empty intervals in increasing order, no
two of them overlapping or touching. -/
structure Separated (bound : Nat) (intervals : List Interval) : Prop where
  gaps : intervals.Pairwise fun left right => left.last + 1 < right.first
  valid : ∀ interval ∈ intervals,
    interval.first ≤ interval.last ∧ interval.last ≤ bound

namespace Separated

variable {bound : Nat}

@[simp] theorem nil : Separated bound [] :=
  ⟨List.Pairwise.nil, by simp⟩

theorem cons_iff {head : Interval} {rest : List Interval} :
    Separated bound (head :: rest) ↔
      (head.first ≤ head.last ∧ head.last ≤ bound) ∧
        (∀ other ∈ rest, head.last + 1 < other.first) ∧
        Separated bound rest := by
  constructor
  · rintro ⟨hgaps, hvalid⟩
    rw [List.pairwise_cons] at hgaps
    exact ⟨hvalid head (by simp), hgaps.1, hgaps.2,
      fun other hother => hvalid other (List.mem_cons_of_mem _ hother)⟩
  · rintro ⟨hhead, hgap, hrest⟩
    refine ⟨List.pairwise_cons.mpr ⟨hgap, hrest.gaps⟩, ?_⟩
    intro other hother
    rcases List.mem_cons.mp hother with rfl | hother
    · exact hhead
    · exact hrest.valid other hother

theorem append_iff {left right : List Interval} :
    Separated bound (left ++ right) ↔
      Separated bound left ∧ Separated bound right ∧
        ∀ a ∈ left, ∀ b ∈ right, a.last + 1 < b.first := by
  constructor
  · rintro ⟨hgaps, hvalid⟩
    rw [List.pairwise_append] at hgaps
    exact ⟨⟨hgaps.1, fun a ha => hvalid a (List.mem_append_left _ ha)⟩,
      ⟨hgaps.2.1, fun b hb => hvalid b (List.mem_append_right _ hb)⟩, hgaps.2.2⟩
  · rintro ⟨hleft, hright, hcross⟩
    refine ⟨List.pairwise_append.mpr ⟨hleft.gaps, hright.gaps, hcross⟩, ?_⟩
    intro other hother
    rcases List.mem_append.mp hother with hother | hother
    · exact hleft.valid other hother
    · exact hright.valid other hother

@[simp] theorem singleton_iff {interval : Interval} :
    Separated bound [interval] ↔
      interval.first ≤ interval.last ∧ interval.last ≤ bound := by
  simp [cons_iff]

theorem le_bound {intervals : List Interval} (hsep : Separated bound intervals)
    {x : Nat} (hx : Covers intervals x) : x ≤ bound := by
  obtain ⟨interval, hmem, -, hlast⟩ := hx
  exact hlast.trans (hsep.valid interval hmem).2

/-- The first interval starts before every covered number. -/
theorem first_le {head : Interval} {rest : List Interval}
    (hsep : Separated bound (head :: rest)) {x : Nat}
    (hx : Covers (head :: rest) x) : head.first ≤ x := by
  obtain ⟨hhead, hgap, hrest⟩ := cons_iff.mp hsep
  rcases (covers_cons _ _ _).mp hx with hx | ⟨other, hother, hmem, -⟩
  · exact hx.1
  · have := hgap other hother
    omega

/-- The last interval ends after every covered number. -/
theorem le_last {init : List Interval} {back : Interval}
    (hsep : Separated bound (init ++ [back])) {x : Nat}
    (hx : Covers (init ++ [back]) x) : x ≤ back.last := by
  obtain ⟨-, hback, hcross⟩ := append_iff.mp hsep
  rcases (covers_append _ _ _).mp hx with ⟨other, hother, -, hmem⟩ | hx
  · have := hcross other hother back (by simp)
    have := (singleton_iff.mp hback).1
    omega
  · obtain ⟨other, hother, -, hmem⟩ := hx
    rw [List.mem_singleton] at hother
    exact hother ▸ hmem

end Separated

/-- `interval` is the smallest interval around the set `P`; an invalid interval
says that the set is empty. -/
def Hull (interval : Interval) (P : Nat → Prop) : Prop :=
  if interval.Valid then
    P interval.first ∧ P interval.last ∧ ∀ x, P x → interval.Mem x
  else
    ∀ x, ¬ P x

/-- One step of a running hull: take in one more non-empty interval. -/
def Interval.extend (hull next : Interval) : Interval :=
  if ¬ hull.Valid then next
  else ⟨min hull.first next.first, max hull.last next.last⟩

/-- A running hull that has taken in a non-empty interval is not empty. -/
theorem Interval.extend_valid (hull : Interval) {next : Interval}
    (hnext : next.Valid) : (hull.extend next).Valid := by
  unfold Interval.extend
  split
  · exact hnext
  · case _ hvalid =>
      unfold Interval.Valid at hvalid hnext ⊢
      simp only
      omega

namespace Hull

variable {interval next : Interval} {P Q : Nat → Prop}

/-- A hull only depends on the set. -/
theorem congr (hhull : Hull interval P) (hiff : ∀ x, P x ↔ Q x) :
    Hull interval Q := by
  have hset : P = Q := funext fun x => propext (hiff x)
  exact hset ▸ hhull

/-- Everything in the set lies in a hull of it. -/
theorem mem (hhull : Hull interval P) {x : Nat} (hx : P x) :
    interval.Valid ∧ interval.Mem x := by
  unfold Hull at hhull
  split at hhull
  · case _ hvalid => exact ⟨hvalid, hhull.2.2 x hx⟩
  · exact (hhull x hx).elim

/-- The ends of a valid hull belong to the set. -/
theorem ends (hhull : Hull interval P) (hvalid : interval.Valid) :
    P interval.first ∧ P interval.last := by
  unfold Hull at hhull
  rw [if_pos hvalid] at hhull
  exact ⟨hhull.1, hhull.2.1⟩

theorem empty (hempty : ∀ x, ¬ P x) (hinvalid : ¬ interval.Valid) :
    Hull interval P := by
  unfold Hull
  rw [if_neg hinvalid]
  exact hempty

theorem valid_iff (hhull : Hull interval P) :
    interval.Valid ↔ ∃ x, P x := by
  constructor
  · intro hvalid
    exact ⟨_, (hhull.ends hvalid).1⟩
  · rintro ⟨x, hx⟩
    exact (hhull.mem hx).1

/-- A set that is not empty has one hull. -/
theorem unique (hhull : Hull interval P) (hother : Hull next P)
    (hvalid : interval.Valid) : interval = next := by
  obtain ⟨hfirst, hlast⟩ := hhull.ends hvalid
  obtain ⟨hvalidOther, hleft⟩ := hother.mem hfirst
  have hright := (hother.mem hlast).2
  obtain ⟨hfirstOther, hlastOther⟩ := hother.ends hvalidOther
  have hleftOther := (hhull.mem hfirstOther).2
  have hrightOther := (hhull.mem hlastOther).2
  obtain ⟨first, last⟩ := interval
  obtain ⟨otherFirst, otherLast⟩ := next
  simp only [Interval.Mem] at hleft hright hleftOther hrightOther
  rw [Interval.mk.injEq]
  omega

/-- **One step of a scan.**  Extending a hull of `P` by a non-empty interval
gives a hull of the union. -/
theorem extend (hhull : Hull interval P) (hnext : next.Valid) :
    Hull (interval.extend next) (fun x => P x ∨ next.Mem x) := by
  unfold Interval.extend
  unfold Interval.Valid at hnext
  by_cases hvalid : interval.Valid
  · rw [if_neg (not_not_intro hvalid)]
    have hends := hhull.ends hvalid
    have hnew : Interval.Valid ⟨min interval.first next.first,
        max interval.last next.last⟩ := by
      unfold Interval.Valid at hvalid ⊢
      simp only
      omega
    unfold Hull
    rw [if_pos hnew]
    refine ⟨?_, ?_, ?_⟩
    · rcases Nat.le_total interval.first next.first with hle | hle
      · simpa [min_eq_left hle] using Or.inl hends.1
      · simp only [min_eq_right hle]
        exact Or.inr ⟨le_rfl, hnext⟩
    · rcases Nat.le_total interval.last next.last with hle | hle
      · simp only [max_eq_right hle]
        exact Or.inr ⟨hnext, le_rfl⟩
      · simpa [max_eq_left hle] using Or.inl hends.2
    · rintro x (hx | hx)
      · have := (hhull.mem hx).2
        simp only [Interval.Mem] at this ⊢
        omega
      · simp only [Interval.Mem] at hx ⊢
        omega
  · rw [if_pos hvalid]
    have hempty : ∀ x, ¬ P x := by
      intro x hx
      exact hvalid (hhull.mem hx).1
    unfold Hull
    rw [if_pos (show next.Valid from hnext)]
    exact ⟨Or.inr ⟨le_rfl, hnext⟩, Or.inr ⟨hnext, le_rfl⟩,
      fun x hx => hx.resolve_left (hempty x)⟩

end Hull

end IntervalList
