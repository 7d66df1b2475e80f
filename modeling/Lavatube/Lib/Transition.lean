import Mathlib.Tactic

/-!
# Runs of guarded step functions

A system is given by a partial step function: `step state label` is the next
state, or `none` when the label is not enabled there.  All nondeterminism
(the choice of the acting thread, of an input, of a hash iteration order)
lives in the label, so a run is determined by its list of labels.

* `exec` — the state after a list of labels, if every label was enabled.
* `Along` — a condition on (state, label) pairs met by every step of a run.
* `exec_invariant` — the induction rule: what one step preserves under the
  condition, every run that meets the condition preserves.
* `exec_trace_invariant` — the same for properties of the labels taken so far.
* `exec_total` — a loop in which no round is refused runs to its end.
* `exec_progress` — a run in which every step that meets the condition is enabled
  goes to its end.
* `Collects` — steps that add to what a state has; `exec_collects` — so do runs.
* `gather` — the labels of steps that are runs of smaller steps; `exec_gather` — a run of such steps.
* `exec_snoc_eq_some_iff` — the last step of a run split off, for properties that speak
  about the state right after a step.
-/

namespace Transition

variable {State Label : Type*}

/-- Execute a list of labels from `state`; `none` once a label is refused. -/
def exec (step : State → Label → Option State) (state : State) :
    List Label → Option State
  | [] => some state
  | label :: labels =>
      match step state label with
      | none => none
      | some next => exec step next labels

/-- Every step of the run meets `cond` in the state in which it is taken. -/
def Along (step : State → Label → Option State)
    (cond : State → Label → Prop) : State → List Label → Prop
  | _, [] => True
  | state, label :: labels =>
      cond state label ∧
        ∀ next, step state label = some next → Along step cond next labels

variable {step : State → Label → Option State}
variable {cond : State → Label → Prop}
variable {state final : State} {label : Label} {labels more : List Label}

@[simp] theorem exec_nil : exec step state [] = some state := rfl

theorem exec_cons_eq_some_iff :
    exec step state (label :: labels) = some final ↔
      ∃ next, step state label = some next ∧
        exec step next labels = some final := by
  cases hstep : step state label with
  | none => simp [exec, hstep]
  | some next => simp [exec, hstep]

@[simp] theorem along_nil : Along step cond state [] := trivial

theorem exec_append_eq_some_iff :
    exec step state (labels ++ more) = some final ↔
      ∃ middle, exec step state labels = some middle ∧
        exec step middle more = some final := by
  induction labels generalizing state with
  | nil => simp
  | cons label labels ih =>
      rw [List.cons_append, exec_cons_eq_some_iff]
      constructor
      · rintro ⟨next, hstep, hrest⟩
        obtain ⟨middle, hfront, hsuffix⟩ := ih.mp hrest
        exact ⟨middle, exec_cons_eq_some_iff.mpr ⟨next, hstep, hfront⟩, hsuffix⟩
      · rintro ⟨middle, hfront, hsuffix⟩
        obtain ⟨next, hstep, hrest⟩ := exec_cons_eq_some_iff.mp hfront
        exact ⟨next, hstep, ih.mpr ⟨middle, hrest, hsuffix⟩⟩

/-- The last step of a run. -/
theorem exec_snoc_eq_some_iff :
    exec step state (labels ++ [label]) = some final ↔
      ∃ middle, exec step state labels = some middle ∧
        step middle label = some final := by
  rw [exec_append_eq_some_iff]
  simp [exec_cons_eq_some_iff]

example : exec (fun n k => if k ≤ n then some (n - k) else none) 5 ([2] ++ [3]) = some 0 := by
  decide +kernel

/-- A condition met along a run is met along the first part of it, and along
the second part from the state in between. -/
theorem along_append {middle : State}
    (halong : Along step cond state (labels ++ more))
    (hfront : exec step state labels = some middle) :
    Along step cond state labels ∧ Along step cond middle more := by
  induction labels generalizing state with
  | nil =>
      cases hfront
      exact ⟨trivial, halong⟩
  | cons label labels ih =>
      obtain ⟨next, hstep, hrest⟩ := exec_cons_eq_some_iff.mp hfront
      have htail := ih (halong.2 next hstep) hrest
      refine ⟨⟨halong.1, ?_⟩, htail.2⟩
      intro other hother
      rw [hstep] at hother
      cases hother
      exact htail.1

/-- The condition along a run with one more step. -/
theorem along_snoc_iff (hfront : exec step state labels = some final) :
    Along step cond state (labels ++ [label]) ↔
      Along step cond state labels ∧ cond final label := by
  constructor
  · intro halong
    have hparts := along_append halong hfront
    exact ⟨hparts.1, hparts.2.1⟩
  · rintro ⟨halong, hcond⟩
    induction labels generalizing state with
    | nil =>
        cases hfront
        exact ⟨hcond, fun _ _ => trivial⟩
    | cons first labels ih =>
        obtain ⟨next, hnext, hrest⟩ := exec_cons_eq_some_iff.mp hfront
        refine ⟨halong.1, fun other hother => ?_⟩
        rw [hnext] at hother
        cases hother
        exact ih hrest (halong.2 next hnext)

/-- A weaker condition is met along every run that meets a stronger one. -/
theorem Along.mono {weaker : State → Label → Prop}
    (himp : ∀ state label, cond state label → weaker state label)
    (halong : Along step cond state labels) :
    Along step weaker state labels := by
  induction labels generalizing state with
  | nil => trivial
  | cons label labels ih =>
      exact ⟨himp state label halong.1, fun next hstep => ih (halong.2 next hstep)⟩

/-- Two conditions that are met along a run are met together. -/
theorem Along.and {other : State → Label → Prop} (halong : Along step cond state labels)
    (hother : Along step other state labels) :
    Along step (fun state label => cond state label ∧ other state label) state labels := by
  induction labels generalizing state with
  | nil => trivial
  | cons label labels ih =>
      exact ⟨⟨halong.1, hother.1⟩,
        fun next hstep => ih (halong.2 next hstep) (hother.2 next hstep)⟩

/-- **Invariant rule.**  A property that every enabled step preserves, as long
as the step meets `cond`, holds after every run that meets `cond`. -/
theorem exec_invariant {Inv : State → Prop}
    (hstep : ∀ state label next, Inv state → cond state label →
      step state label = some next → Inv next)
    (hinit : Inv state) (halong : Along step cond state labels)
    (hexec : exec step state labels = some final) : Inv final := by
  induction labels generalizing state with
  | nil =>
      cases hexec
      exact hinit
  | cons label labels ih =>
      obtain ⟨next, hnext, hrest⟩ := exec_cons_eq_some_iff.mp hexec
      exact ih (hstep state label next hinit halong.1 hnext)
        (halong.2 next hnext) hrest

example : exec (fun n k => if k ≤ n then some (n - k) else none) 5 [2, 4] = none := by
  decide +kernel

/-- A condition on the labels alone is met along the run if all labels meet it. -/
theorem along_of_forall {P : Label → Prop} (h : ∀ label ∈ labels, P label) :
    Along step (fun _ label => P label) state labels := by
  induction labels generalizing state with
  | nil => trivial
  | cons label labels ih =>
      rw [List.forall_mem_cons] at h
      exact ⟨h.1, fun next _ => ih h.2⟩

/-- A condition that follows from an invariant is met along the run. -/
theorem along_of_invariant {Inv : State → Prop}
    (hstep : ∀ state label next, Inv state → step state label = some next → Inv next)
    (hcond : ∀ state label, label ∈ labels → Inv state → cond state label) (hinit : Inv state) :
    Along step cond state labels := by
  induction labels generalizing state with
  | nil => trivial
  | cons label labels ih =>
      refine ⟨hcond state label List.mem_cons_self hinit, fun next hnext => ?_⟩
      exact ih (fun state label hmem => hcond state label (List.mem_cons_of_mem _ hmem))
        (hstep state label next hinit hnext)

/-- The empty condition is met along every run. -/
theorem along_true (step : State → Label → Option State) (state : State)
    (labels : List Label) : Along step (fun _ _ => True) state labels :=
  along_of_forall fun _ _ => trivial

/-- The invariant rule for steps that need no condition. -/
theorem exec_invariant_of_step {Inv : State → Prop}
    (hstep : ∀ state label next, Inv state →
      step state label = some next → Inv next)
    (hinit : Inv state) (hexec : exec step state labels = some final) :
    Inv final :=
  exec_invariant (fun state label next hinv _ => hstep state label next hinv)
    hinit (along_true step state labels) hexec

/-- The invariant rule for properties that speak about the labels taken so far. -/
theorem exec_trace_invariant {Inv : List Label → State → Prop}
    (hstep : ∀ trace state label next, Inv trace state → cond state label →
      step state label = some next → Inv (trace ++ [label]) next)
    {trace : List Label} (hinit : Inv trace state)
    (halong : Along step cond state labels)
    (hexec : exec step state labels = some final) : Inv (trace ++ labels) final := by
  induction labels generalizing state trace with
  | nil =>
      cases hexec
      simpa using hinit
  | cons label labels ih =>
      obtain ⟨next, hnext, hrest⟩ := exec_cons_eq_some_iff.mp hexec
      have := ih (hstep trace state label next hinit halong.1 hnext)
        (halong.2 next hnext) hrest
      simpa using this

example : (exec (fun n k => if k ≤ n then some (n - k) else none) 5 [2, 1]).isSome := by
  decide +kernel

/-- **Total loop rule.**  A loop over a list of jobs in which no job is refused
runs to its end; `Done job` holds from the job's own step on. -/
theorem exec_total (step : State → Label → Option State) (labels : List Label)
    (Inv : State → Prop) (Done : Label → State → Prop)
    (hstep : ∀ state label, label ∈ labels → Inv state →
      ∃ next, step state label = some next ∧ Inv next ∧ Done label next ∧
        ∀ other, Done other state → Done other next)
    (hinit : Inv state) :
    ∃ final, exec step state labels = some final ∧ Inv final ∧
      (∀ label ∈ labels, Done label final) ∧
      ∀ other, Done other state → Done other final := by
  induction labels generalizing state with
  | nil => exact ⟨state, rfl, hinit, by simp, fun _ h => h⟩
  | cons label labels ih =>
      obtain ⟨next, hnext, hinv, hdone, hkeep⟩ :=
        hstep state label (List.mem_cons_self ..) hinit
      obtain ⟨final, hfinal, hinvFinal, hall, hkeepFinal⟩ :=
        ih (fun state label hmem => hstep state label (List.mem_cons_of_mem _ hmem))
          hinv
      refine ⟨final, exec_cons_eq_some_iff.mpr ⟨next, hnext, hfinal⟩, hinvFinal,
        ?_, fun other hother => hkeepFinal other (hkeep other hother)⟩
      intro job hjob
      rcases List.mem_cons.mp hjob with rfl | hjob
      · exact hkeepFinal job hdone
      · exact hall job hjob

/-- **Progress rule.**  Where a step that meets `cond` is enabled and keeps the invariant, a run
that meets `cond` goes to its end and keeps it. -/
theorem exec_progress {Inv : State → Prop}
    (hstep : ∀ state label, Inv state → cond state label →
      ∃ next, step state label = some next ∧ Inv next)
    (hinit : Inv state) (halong : Along step cond state labels) :
    ∃ final, exec step state labels = some final ∧ Inv final := by
  induction labels generalizing state with
  | nil => exact ⟨state, rfl, hinit⟩
  | cons label labels ih =>
      obtain ⟨next, hnext, hinv⟩ := hstep state label hinit halong.1
      obtain ⟨final, hfinal, hinvFinal⟩ := ih hinv (halong.2 next hnext)
      exact ⟨final, exec_cons_eq_some_iff.mpr ⟨next, hnext, hfinal⟩, hinvFinal⟩

/-- A step adds what `adds` says to what the state has, and is refused when its label is not one of
`cond`. -/
def Collects {T : Type*} (step : State → Label → Option State) (inv : State → Prop)
    (has : State → T → Prop) (cond : Label → Prop) (adds : Label → T → Prop) : Prop :=
  ∀ state label, inv state →
    (cond label → ∃ next, step state label = some next ∧ inv next ∧
      ∀ item, has next item ↔ has state item ∨ adds label item) ∧
    (¬ cond label → step state label = none)

/-- A run collects what its steps add. -/
theorem exec_collects {T : Type*} {inv : State → Prop} {has : State → T → Prop}
    {cond : Label → Prop} {adds : Label → T → Prop} (h : Collects step inv has cond adds) :
    Collects (exec step) inv has (fun labels => ∀ label ∈ labels, cond label)
      fun labels item => ∃ label ∈ labels, adds label item := by
  intro state labels hinv
  induction labels generalizing state with
  | nil =>
      constructor
      · intro _
        exact ⟨state, rfl, hinv, by simp⟩
      · intro hrefused
        exact absurd (fun _ hmem => absurd hmem List.not_mem_nil) hrefused
  | cons label labels ih =>
      obtain ⟨hmeets, hrefuses⟩ := h state label hinv
      -- a label that is not met refuses the rest, whatever it is
      by_cases hlabel : cond label
      · obtain ⟨middle, hstep, hmiddle, hone⟩ := hmeets hlabel
        obtain ⟨hrest, hrestRefuses⟩ := ih middle hmiddle
        constructor
        · intro hall
          obtain ⟨next, hexec, hnext, hmore⟩ :=
            hrest fun other hother => hall other (List.mem_cons_of_mem _ hother)
          refine ⟨next, exec_cons_eq_some_iff.mpr ⟨middle, hstep, hexec⟩, hnext, fun item => ?_⟩
          rw [hmore, hone, or_assoc]
          show _ ∨ _ ∨ (∃ other ∈ labels, adds other item) ↔
            _ ∨ ∃ other ∈ label :: labels, adds other item
          rw [List.exists_mem_cons_iff]
        · intro hrefused
          rw [exec, hstep]
          refine hrestRefuses fun hrest => hrefused ?_
          exact List.forall_mem_cons.mpr ⟨hlabel, hrest⟩
      · constructor
        · intro hall
          exact absurd (hall label List.mem_cons_self) hlabel
        · intro _
          rw [exec, hrefuses hlabel]

/-- A step of a run, by its place: it is taken in the state behind the labels in
front of it, and meets the condition there. -/
theorem exec_getElem? {middle : State} {k : Nat}
    (hexec : exec step state labels = some final)
    (hmiddle : exec step state (labels.take k) = some middle)
    (hlabel : labels[k]? = some label) :
    ∃ next, step middle label = some next := by
  obtain ⟨hlt, rfl⟩ := List.getElem?_eq_some_iff.mp hlabel
  rw [← List.take_append_drop k labels, List.drop_eq_getElem_cons hlt] at hexec
  obtain ⟨other, hother, hrest⟩ := exec_append_eq_some_iff.mp hexec
  cases hmiddle.symm.trans hother
  obtain ⟨next, hnext, -⟩ := exec_cons_eq_some_iff.mp hrest
  exact ⟨next, hnext⟩

example : exec (fun n k => if k ≤ n then some (n - k) else none) 5 ([2, 3].take 1) = some 3 := by
  decide +kernel

theorem along_getElem? {middle : State} {k : Nat} (halong : Along step cond state labels)
    (hmiddle : exec step state (labels.take k) = some middle)
    (hlabel : labels[k]? = some label) : cond middle label := by
  obtain ⟨hlt, rfl⟩ := List.getElem?_eq_some_iff.mp hlabel
  rw [← List.take_append_drop k labels, List.drop_eq_getElem_cons hlt] at halong
  exact (along_append halong hmiddle).2.1

theorem along_take (halong : Along step cond state labels)
    (hexec : exec step state labels = some final) (k : Nat) :
    Along step cond state (labels.take k) := by
  rw [← List.take_append_drop k labels] at halong hexec
  obtain ⟨middle, hmiddle, -⟩ := exec_append_eq_some_iff.mp hexec
  exact (along_append halong hmiddle).1

/-- Where the steps that meet `cond` are the ones that keep a property, a run has
the property in every state exactly when `cond` is met along it. -/
theorem prefixes_iff_along {Inv Good : State → Prop}
    (hgood : ∀ state, Inv state → Good state)
    (hkeep : ∀ state label next, Inv state → cond state label →
      step state label = some next → Inv next)
    (hback : ∀ state label next, Inv state → step state label = some next →
      Good next → cond state label)
    (hinit : Inv state) (hexec : exec step state labels = some final) :
    (∀ k middle, exec step state (labels.take k) = some middle → Good middle) ↔
      Along step cond state labels := by
  constructor
  · intro hall
    induction labels generalizing state with
    | nil => trivial
    | cons label labels ih =>
        obtain ⟨next, hstep, hrest⟩ := exec_cons_eq_some_iff.mp hexec
        have hfront : ∀ k middle, exec step next (labels.take k) = some middle →
            Good middle := fun k middle hmiddle =>
          hall (k + 1) middle (exec_cons_eq_some_iff.mpr ⟨next, hstep, hmiddle⟩)
        have hcond := hback state label next hinit hstep (hfront 0 next rfl)
        refine ⟨hcond, fun other hother => ?_⟩
        cases hstep.symm.trans hother
        exact ih (hkeep state label next hinit hcond hstep) hrest hfront
  · intro halong k middle hmiddle
    exact hgood middle (exec_invariant hkeep hinit (along_take halong hexec k) hmiddle)

/-- Where the steps that come out well are those that meet `cond`, all steps of a run come
out well exactly when `cond` is met along it. -/
theorem steps_iff_along {Inv : State → Prop} {Good : State → Label → State → Prop}
    (hkeep : ∀ state label next, Inv state → step state label = some next → Inv next)
    (hgood : ∀ state label next, Inv state → step state label = some next →
      (Good state label next ↔ cond state label))
    (hinit : Inv state) (hexec : exec step state labels = some final) :
    (∀ k middle label next, exec step state (labels.take k) = some middle →
      labels[k]? = some label → step middle label = some next → Good middle label next) ↔
      Along step cond state labels := by
  constructor
  · intro hall
    induction labels generalizing state with
    | nil => trivial
    | cons label labels ih =>
        obtain ⟨next, hstep, hrest⟩ := exec_cons_eq_some_iff.mp hexec
        have hcond := (hgood state label next hinit hstep).mp
          (hall 0 state label next rfl rfl hstep)
        refine ⟨hcond, fun other hother => ?_⟩
        cases hstep.symm.trans hother
        exact ih (hkeep state label next hinit hstep) hrest fun k middle more after hmiddle =>
          hall (k + 1) middle more after (exec_cons_eq_some_iff.mpr ⟨next, hstep, hmiddle⟩)
  · intro halong k middle label next hmiddle hlabel hstep
    have hinv := exec_invariant_of_step hkeep hinit hmiddle
    exact (hgood middle label next hinv hstep).mpr (along_getElem? halong hmiddle hlabel)

/-- A decidable condition can be checked along a concrete run. -/
instance decidableAlong (step : State → Label → Option State)
    (cond : State → Label → Prop) [∀ state label, Decidable (cond state label)] :
    ∀ (state : State) (labels : List Label), Decidable (Along step cond state labels)
  | _, [] => .isTrue trivial
  | state, label :: labels =>
      match hstep : step state label with
      | none => decidable_of_iff (cond state label)
          ⟨fun h => ⟨h, fun next hnext => by rw [hstep] at hnext; cases hnext⟩,
            fun h => h.1⟩
      | some next =>
          have := decidableAlong step cond next labels
          decidable_of_iff (cond state label ∧ Along step cond next labels)
            ⟨fun h => ⟨h.1, fun other hother => by
                rw [hstep] at hother; cases hother; exact h.2⟩,
              fun h => ⟨h.1, h.2 next hstep⟩⟩

/-- The labels that jobs stand for, one job after the other. -/
def gather {Job : Type*} (plan : Job → Option (List Label)) : List Job → Option (List Label)
  | [] => some []
  | job :: jobs => (plan job).bind fun front => (gather plan jobs).map fun rest => front ++ rest

section

variable {Job : Type*} {plan : Job → Option (List Label)} {big : State → Job → Option State}
variable {jobs : List Job}

theorem gather_cons_eq_some_iff {job : Job} :
    gather plan (job :: jobs) = some labels ↔
      ∃ front rest, plan job = some front ∧ gather plan jobs = some rest ∧
        labels = front ++ rest := by
  simp only [gather, Option.bind_eq_some_iff, Option.map_eq_some_iff]
  constructor
  · rintro ⟨front, hfront, rest, hrest, rfl⟩
    exact ⟨front, rest, hfront, hrest, rfl⟩
  · rintro ⟨front, rest, hfront, hrest, rfl⟩
    exact ⟨front, hfront, rest, hrest, rfl⟩

/-- The labels are those of the jobs. -/
theorem mem_gather (hgather : gather plan jobs = some labels) :
    label ∈ labels ↔ ∃ job ∈ jobs, ∃ front, plan job = some front ∧ label ∈ front := by
  induction jobs generalizing labels with
  | nil =>
      cases hgather
      simp
  | cons job jobs ih =>
      obtain ⟨front, rest, hfront, hrest, rfl⟩ := gather_cons_eq_some_iff.mp hgather
      rw [List.mem_append, ih hrest, List.exists_mem_cons_iff]
      simp [hfront]

/-- All jobs have labels exactly if each one has. -/
theorem gather_isSome (hall : ∀ job ∈ jobs, (plan job).isSome) : (gather plan jobs).isSome := by
  induction jobs with
  | nil => rfl
  | cons job jobs ih =>
      rw [List.forall_mem_cons] at hall
      obtain ⟨front, hfront⟩ := Option.isSome_iff_exists.mp hall.1
      obtain ⟨rest, hrest⟩ := Option.isSome_iff_exists.mp (ih hall.2)
      simp [gather, hfront, hrest]

example : gather (fun n => if n = 0 then none else some [n, n]) [2, 3] = some [2, 2, 3, 3] := by
  decide +kernel

/-- A run of steps, each of which is a run of smaller steps. -/
theorem exec_gather (hbig : ∀ state job, big state job = (plan job).bind (exec step state)) :
    exec big state jobs = (gather plan jobs).bind (exec step state) := by
  induction jobs generalizing state with
  | nil => rfl
  | cons job jobs ih =>
      ext final
      rw [exec_cons_eq_some_iff]
      simp only [hbig, ih, Option.bind_eq_some_iff]
      constructor
      · rintro ⟨next, ⟨front, hfront, hnext⟩, rest, hrest, hfinal⟩
        exact ⟨front ++ rest, gather_cons_eq_some_iff.mpr ⟨front, rest, hfront, hrest, rfl⟩,
          exec_append_eq_some_iff.mpr ⟨next, hnext, hfinal⟩⟩
      · rintro ⟨labels, hlabels, hfinal⟩
        obtain ⟨front, rest, hfront, hrest, rfl⟩ := gather_cons_eq_some_iff.mp hlabels
        obtain ⟨next, hnext, hrestFinal⟩ := exec_append_eq_some_iff.mp hfinal
        exact ⟨next, ⟨front, hfront, hnext⟩, rest, hrest, hrestFinal⟩

end

end Transition
