import Mathlib.Tactic
import Mathlib.Data.List.TakeWhile
import Mathlib.Logic.Relation

/-!
# Cycles of a partial successor function

Every node has one successor at most, so a walk has no choice: it ends at a node without a
successor, or it comes to a node a second time, and then it goes round for ever.

* `follow` — the walk from a node, up to the first node that comes again.
* `findCycle` — the walks from one node after the other, until one goes round.
* `IsCycle` — every node of a list leads to the one behind it, and the last one to the first.
* `follow_isCycle` — what a walk returns is a cycle.
* `follow_ne_nil_iff` — a walk returns one exactly if it comes to a node that comes again.
* `exists_onCycle` — nodes that lead to each other only, and a finite number of them: a cycle.
-/

namespace SuccessorGraph

open Relation

variable {Node : Type*}

/-- One node leads to another. -/
def Leads (next : Node → Option Node) (a b : Node) : Prop := next a = some b

/-- A node that comes again. -/
def OnCycle (next : Node → Option Node) (a : Node) : Prop := TransGen (Leads next) a a

/-- Every node leads to the one behind it, and the last one to the first. -/
structure IsCycle (next : Node → Option Node) (cycle : List Node) : Prop where
  nodup : cycle.Nodup
  closed : ∃ first ∈ cycle.head?, List.IsChain (Leads next) (cycle ++ [first])

/-- Walk on from `node`; `path` are the nodes behind. -/
def follow [DecidableEq Node] (next : Node → Option Node) :
    Nat → List Node → Node → List Node
  | 0, _, _ => []
  | rounds + 1, path, node =>
      match next node with
      | none => []
      | some later =>
          if node ∈ path then path.dropWhile (fun passed => passed != node)
          else follow next rounds (path ++ [node]) later

/-- The first walk that goes round. -/
def findCycle [DecidableEq Node] (next : Node → Option Node) (rounds : Nat) :
    List Node → List Node
  | [] => []
  | start :: starts =>
      match follow next rounds [] start with
      | [] => findCycle next rounds starts
      | first :: rest => first :: rest

section

variable {next : Node → Option Node} {a b c : Node} {cycle path : List Node}

theorem Leads.eq (hb : Leads next a b) (hc : Leads next a c) : b = c :=
  Option.some.inj (hb.symm.trans hc)

/-! ## Nodes that come again -/

theorem OnCycle.exists_leads (ha : OnCycle next a) : ∃ b, Leads next a b := by
  obtain ⟨b, hb, -⟩ := TransGen.head'_iff.mp ha
  exact ⟨b, hb⟩

/-- A node behind one that comes again comes again as well. -/
theorem OnCycle.leads (ha : OnCycle next a) (hb : Leads next a b) : OnCycle next b := by
  obtain ⟨c, hc, hback⟩ := TransGen.head'_iff.mp ha
  obtain rfl := hc.eq hb
  exact TransGen.tail' hback hb

theorem OnCycle.of_reflTransGen (ha : OnCycle next a)
    (hb : ReflTransGen (Leads next) a b) : OnCycle next b := by
  induction hb with
  | refl => exact ha
  | tail _ hleads ih => exact ih.leads hleads

/-! ## Cycles as lists -/

/-- A walk back to its first node passes through nodes that come again. -/
theorem onCycle_of_isChain {first : Node} {rest : List Node}
    (hchain : List.IsChain (Leads next) (first :: rest ++ [first])) :
    ∀ a ∈ first :: rest, OnCycle next a := by
  have hpairs : (first :: rest ++ [first]).Pairwise (TransGen (Leads next)) :=
    List.isChain_iff_pairwise.mp (hchain.imp fun _ _ hleads => TransGen.single hleads)
  have hfirst : OnCycle next first := by
    rw [List.cons_append, List.pairwise_cons] at hpairs
    exact hpairs.1 first (by simp)
  intro a hmem
  rcases List.mem_cons.mp hmem with rfl | hrest
  · exact hfirst
  · rw [List.cons_append, List.pairwise_cons] at hpairs
    have hreach : TransGen (Leads next) first a := hpairs.1 a (by simp [hrest])
    exact hfirst.of_reflTransGen hreach.to_reflTransGen

theorem IsCycle.onCycle (h : IsCycle next cycle) : ∀ a ∈ cycle, OnCycle next a := by
  obtain ⟨first, hhead, hchain⟩ := h.closed
  cases cycle with
  | nil => cases hhead
  | cons other rest =>
      cases hhead
      exact onCycle_of_isChain hchain

/-- Every node of a cycle leads to a node of it. -/
theorem IsCycle.exists_mem (h : IsCycle next cycle) (ha : a ∈ cycle) :
    ∃ b ∈ cycle, Leads next a b := by
  obtain ⟨first, hhead, hchain⟩ := h.closed
  obtain ⟨before, behind, rfl⟩ := List.append_of_mem ha
  rw [List.append_assoc, List.cons_append] at hchain
  have hsuffix := hchain.right_of_append
  cases behind with
  | nil =>
      rw [List.nil_append, List.isChain_pair] at hsuffix
      exact ⟨first, List.mem_of_mem_head? hhead, hsuffix⟩
  | cons b behind =>
      rw [List.cons_append, List.isChain_cons_cons] at hsuffix
      exact ⟨b, by simp, hsuffix.1⟩

variable [DecidableEq Node]

/-! ## What a walk returns -/

omit [DecidableEq Node] in
private theorem nodup_snoc (hnodup : path.Nodup) (ha : a ∉ path) : (path ++ [a]).Nodup := by
  rw [← List.concat_eq_append]
  exact List.Nodup.concat ha hnodup

/-- The part of the path from the node that comes again. -/
theorem isCycle_dropWhile (hnodup : path.Nodup)
    (hchain : List.IsChain (Leads next) (path ++ [a])) (ha : a ∈ path) :
    IsCycle next (path.dropWhile fun passed => passed != a) ∧
      a ∈ path.dropWhile fun passed => passed != a := by
  obtain ⟨before, behind, hsplit, hfirst⟩ : ∃ before behind,
      path = before ++ a :: behind ∧ a ∉ before := List.eq_append_cons_of_mem ha
  have hdrop : (path.dropWhile fun passed => passed != a) = a :: behind := by
    rw [hsplit, List.dropWhile_append_of_pos]
    · simp
    · intro passed hpassed
      simpa using fun heq : passed = a => hfirst (heq ▸ hpassed)
  rw [hdrop]
  rw [hsplit] at hnodup hchain
  rw [List.append_assoc] at hchain
  exact ⟨⟨hnodup.of_append_right, a, rfl, hchain.right_of_append⟩, List.mem_cons_self⟩

/-- **What a walk returns** is a cycle that can be reached from its start. -/
theorem follow_isCycle {rounds : Nat} (hnodup : path.Nodup)
    (hchain : List.IsChain (Leads next) (path ++ [a]))
    (hfound : follow next rounds path a ≠ []) :
    IsCycle next (follow next rounds path a) ∧
      ∃ b ∈ follow next rounds path a, ReflTransGen (Leads next) a b := by
  induction rounds generalizing path a with
  | zero => exact absurd rfl hfound
  | succ rounds ih =>
      rw [follow] at hfound ⊢
      cases hnext : next a with
      | none =>
          simp only [hnext, ne_eq, not_true_eq_false] at hfound
      | some later =>
          simp only [hnext] at hfound ⊢
          split_ifs at hfound ⊢ with hmem
          · obtain ⟨hcycle, hthere⟩ := isCycle_dropWhile hnodup hchain hmem
            exact ⟨hcycle, a, hthere, ReflTransGen.refl⟩
          · have hpair : List.IsChain (Leads next) ([a] ++ [later]) := List.isChain_pair.mpr hnext
            have hlonger : List.IsChain (Leads next) (path ++ [a] ++ [later]) :=
              hchain.append_overlap hpair (List.cons_ne_nil a [])
            obtain ⟨hcycle, b, hthere, hreach⟩ := ih (nodup_snoc hnodup hmem) hlonger hfound
            exact ⟨hcycle, b, hthere, ReflTransGen.head hnext hreach⟩

/-- A walk that has no end goes round, within as many rounds as there are nodes, and one. -/
theorem follow_ne_nil {nodes : List Node} {rounds : Nat}
    (hnodes : ∀ a b, Leads next a b → a ∈ nodes) (hnodup : path.Nodup)
    (hpath : path ⊆ nodes) (hrounds : nodes.length < rounds + path.length)
    (hendless : ∀ b, ReflTransGen (Leads next) a b → ∃ c, Leads next b c) :
    follow next rounds path a ≠ [] := by
  induction rounds generalizing path a with
  | zero =>
      -- a path without repetition is not longer than the list of all nodes
      have hshort : path.length ≤ nodes.length := (hnodup.subperm hpath).length_le
      omega
  | succ rounds ih =>
      obtain ⟨later, hnext⟩ := hendless a ReflTransGen.refl
      have hlater : next a = some later := hnext
      rw [follow]
      simp only [hlater]
      split_ifs with hmem
      · intro hnil
        have hpassed := List.dropWhile_eq_nil_iff.mp hnil a hmem
        simp at hpassed
      · refine ih (nodup_snoc hnodup hmem) ?_ ?_
          fun b hb => hendless b (ReflTransGen.head hnext hb)
        · intro b hb
          rcases List.mem_append.mp hb with hold | hnew
          · exact hpath hold
          · rw [List.mem_singleton.mp hnew]
            exact hnodes a later hnext
        · rw [List.length_append, List.length_singleton]
          omega

/-- **A walk goes round** exactly if it comes to a node that comes again. -/
theorem follow_ne_nil_iff {nodes : List Node} {rounds : Nat}
    (hnodes : ∀ a b, Leads next a b → a ∈ nodes) (hrounds : nodes.length < rounds) :
    follow next rounds [] a ≠ [] ↔
      ∃ b, ReflTransGen (Leads next) a b ∧ OnCycle next b := by
  constructor
  · intro hfound
    obtain ⟨hcycle, b, hthere, hreach⟩ :=
      follow_isCycle List.nodup_nil (List.isChain_singleton a) hfound
    exact ⟨b, hreach, hcycle.onCycle b hthere⟩
  · rintro ⟨b, hreach, hcycle⟩
    refine follow_ne_nil hnodes List.nodup_nil (List.nil_subset _) (by simpa using hrounds) ?_
    intro c hc
    -- the walk from `a` goes through `b`: `c` stands in front of it or behind it
    have hends : ReflTransGen (Leads next) c b ∨ ReflTransGen (Leads next) b c :=
      ReflTransGen.total_of_right_unique (fun _ _ _ hone hother => hone.eq hother) hc hreach
    rcases hends with hbefore | hbehind
    · rcases hbefore.cases_head with rfl | ⟨d, hd, -⟩
      · exact hcycle.exists_leads
      · exact ⟨d, hd⟩
    · exact (hcycle.of_reflTransGen hbehind).exists_leads

/-! ## What the search returns -/

theorem findCycle_isCycle {rounds : Nat} {starts : List Node}
    (hfound : findCycle next rounds starts ≠ []) :
    IsCycle next (findCycle next rounds starts) := by
  induction starts with
  | nil => exact absurd rfl hfound
  | cons start starts ih =>
      rw [findCycle] at hfound ⊢
      cases hfollow : follow next rounds [] start with
      | nil =>
          simp only [hfollow] at hfound ⊢
          exact ih hfound
      | cons first rest =>
          have hwalk : follow next rounds [] start ≠ [] := by simp [hfollow]
          have hcycle := (follow_isCycle List.nodup_nil (List.isChain_singleton start) hwalk).1
          rwa [hfollow] at hcycle

/-- **The search finds a cycle** exactly if one of its walks comes to one. -/
theorem findCycle_ne_nil_iff {nodes starts : List Node} {rounds : Nat}
    (hnodes : ∀ a b, Leads next a b → a ∈ nodes) (hrounds : nodes.length < rounds) :
    findCycle next rounds starts ≠ [] ↔
      ∃ a ∈ starts, ∃ b, ReflTransGen (Leads next) a b ∧ OnCycle next b := by
  induction starts with
  | nil => simp [findCycle]
  | cons start starts ih =>
      have hwalk := follow_ne_nil_iff (a := start) hnodes hrounds
      rw [List.exists_mem_cons_iff, ← hwalk, ← ih, findCycle]
      cases follow next rounds [] start with
      | nil => simp
      | cons first rest => simp

/-- **Nodes that lead to each other only**: one of them comes again. -/
theorem exists_onCycle {nodes inside : List Node} (hnodes : ∀ a b, Leads next a b → a ∈ nodes)
    (hinside : ∀ a ∈ inside, ∃ b ∈ inside, Leads next a b) (ha : a ∈ inside) :
    ∃ b, OnCycle next b := by
  have hstays : ∀ b, ReflTransGen (Leads next) a b → b ∈ inside := by
    intro b hb
    induction hb with
    | refl => exact ha
    | tail _ hleads ih =>
        obtain ⟨c, hc, hother⟩ := hinside _ ih
        rwa [hleads.eq hother]
  have hwalk : follow next (nodes.length + 1) [] a ≠ [] := by
    refine follow_ne_nil hnodes List.nodup_nil (List.nil_subset _) (Nat.lt_succ_self _) ?_
    intro b hb
    obtain ⟨c, -, hc⟩ := hinside b (hstays b hb)
    exact ⟨c, hc⟩
  obtain ⟨b, -, hcycle⟩ := (follow_ne_nil_iff hnodes (Nat.lt_succ_self _)).mp hwalk
  exact ⟨b, hcycle⟩

end

end SuccessorGraph
