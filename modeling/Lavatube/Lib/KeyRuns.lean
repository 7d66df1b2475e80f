import Mathlib.Data.List.Sort
import Mathlib.Order.Basic

/-!
# Runs of a key

A loop over a list collects neighbours with the same key, and hands a group over when the key
changes and at the end.  On a list that is sorted by the key, each key has one group.

* `runs` — the groups that are handed over, with their keys.
* `runs_sorted` — their keys ascend, by a rank that tells them apart.
* `mem_runs` — each group is what the list has under its key.
-/

namespace KeyRuns

/-- The groups of a loop that has collected `group` under the key `current`. -/
def runs {A K : Type*} [DecidableEq K] (key : A → K) :
    K → List A → List A → List (K × List A)
  | current, group, [] => [(current, group)]
  | current, group, a :: rest =>
      if current ≠ key a then (current, group) :: runs key (key a) [a] rest
      else runs key current (group ++ [a]) rest

section

variable {A K O : Type*} [DecidableEq K] [LinearOrder O] {key : A → K} {rank : K → O}
variable {current k : K} {group rest : List A}

theorem mem_keys_runs :
    k ∈ (runs key current group rest).map Prod.fst ↔ k = current ∨ ∃ a ∈ rest, key a = k := by
  induction rest generalizing current group with
  | nil => simp [runs]
  | cons a rest ih =>
      unfold runs
      split_ifs with hchange
      · rw [List.map_cons, List.mem_cons, ih]
        simp [eq_comm]
      · rw [ih, not_not.mp hchange]
        simp [eq_comm]

theorem runs_sorted (hrank : rank.Injective)
    (hrest : rest.Pairwise fun a b => rank (key a) ≤ rank (key b))
    (hbelow : ∀ a ∈ rest, rank current ≤ rank (key a)) :
    ((runs key current group rest).map Prod.fst).Pairwise fun k l => rank k < rank l := by
  induction rest generalizing current group with
  | nil => simp [runs]
  | cons a rest ih =>
      obtain ⟨hfirst, hrest⟩ := List.pairwise_cons.mp hrest
      unfold runs
      split_ifs with hchange
      · rw [List.map_cons, List.pairwise_cons]
        have hlt := lt_of_le_of_ne (hbelow a (List.mem_cons_self ..)) fun h => hchange (hrank h)
        refine ⟨fun k hk => ?_, ih hrest hfirst⟩
        rcases mem_keys_runs.mp hk with rfl | ⟨b, hb, rfl⟩
        · exact hlt
        · exact hlt.trans_le (hfirst b hb)
      · exact ih hrest fun b hb => hbelow b (List.mem_cons_of_mem _ hb)

/-- **Each group** is the part of the list with its key. -/
theorem mem_runs (hrank : rank.Injective) (hgroup : ∀ a ∈ group, key a = current)
    (hrest : rest.Pairwise fun a b => rank (key a) ≤ rank (key b))
    (hbelow : ∀ a ∈ rest, rank current ≤ rank (key a)) {run : K × List A}
    (hrun : run ∈ runs key current group rest) :
    run.2 = (group ++ rest).filter fun a => key a = run.1 := by
  have hsame : ∀ l : List A, (∀ a ∈ l, key a = current) →
      l.filter (fun a => key a = current) = l :=
    fun l hl => List.filter_eq_self.mpr fun a ha => decide_eq_true (hl a ha)
  induction rest generalizing current group with
  | nil =>
      rw [runs, List.mem_singleton] at hrun
      subst hrun
      rw [List.append_nil, hsame _ hgroup]
  | cons a rest ih =>
      obtain ⟨hfirst, hrest⟩ := List.pairwise_cons.mp hrest
      unfold runs at hrun
      split_ifs at hrun with hchange
      · have hlt := lt_of_le_of_ne (hbelow a (List.mem_cons_self ..)) fun h => hchange (hrank h)
        rw [List.filter_append]
        rcases List.mem_cons.mp hrun with rfl | hlater
        · -- what follows has larger keys
          have hnone : (a :: rest).filter (fun b => key b = current) = [] := by
            refine List.filter_eq_nil_iff.mpr fun b hb => ?_
            have hkey : rank current < rank (key b) := by
              rcases List.mem_cons.mp hb with rfl | hb
              · exact hlt
              · exact hlt.trans_le (hfirst b hb)
            have hne : key b ≠ current := fun h => hkey.ne (congrArg rank h.symm)
            simpa using hne
          rw [hnone, List.append_nil, hsame _ hgroup]
        · have hkey : rank (key a) ≤ rank run.1 := by
            rcases mem_keys_runs.mp (List.mem_map_of_mem (f := Prod.fst) hlater) with h | h
            · exact (congrArg rank h).ge
            · obtain ⟨b, hb, hkey⟩ := h
              exact hkey ▸ hfirst b hb
          have hnone : group.filter (fun b => key b = run.1) = [] := by
            refine List.filter_eq_nil_iff.mpr fun b hb => ?_
            have hne : key b ≠ run.1 := fun h =>
              (hlt.trans_le hkey).ne (congrArg rank ((hgroup b hb).symm.trans h))
            simpa using hne
          rw [hnone, List.nil_append]
          exact ih (fun b hb => by rw [List.mem_singleton.mp hb]) hrest hfirst hlater
            fun l hl => List.filter_eq_self.mpr fun b hb => decide_eq_true (hl b hb)
      · have hkey : current = key a := not_not.mp hchange
        have hgroup' : ∀ b ∈ group ++ [a], key b = current := by
          intro b hb
          rcases List.mem_append.mp hb with hb | hb
          · exact hgroup b hb
          · rw [List.mem_singleton.mp hb, hkey]
        have hstep := ih hgroup' hrest (fun b hb => hbelow b (List.mem_cons_of_mem _ hb)) hrun hsame
        rw [hstep, List.append_assoc, List.singleton_append]

end

end KeyRuns
