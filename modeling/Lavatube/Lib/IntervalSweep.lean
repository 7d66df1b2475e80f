import Mathlib.Logic.Relation
import Mathlib.Order.Lattice
import Mathlib.Tactic

/-!
# Connected components of overlapping ranges

Half-open ranges `[start i, stop i)` over a linear order.  A sweep over the ranges in
the order of their starts keeps a running end and closes a cluster when the next
range starts at or behind it.

* `Overlaps` — two ranges share a point; `Chained` is its transitive closure inside
  a list of items.
* `Linked` — every item of a list starts in front of the running end of the items
  before it.
* `Clusters` — a list of clusters as the sweep leaves it.
* `Clusters.together_iff_chained` — the clusters are the connected components.
-/

namespace IntervalSweep

section Ranges

variable {ι α : Type*} [LinearOrder α] (start stop : ι → α)

/-- The ranges of `i` and `j` share a point. -/
def Overlaps (i j : ι) : Prop :=
  start i < stop j ∧ start j < stop i

/-- A chain of items, each overlapping the next one. -/
def Chained (items : List ι) : ι → ι → Prop :=
  Relation.ReflTransGen fun i j => i ∈ items ∧ j ∈ items ∧ Overlaps start stop i j

/-- Every item starts in front of the running end, which starts as `reach`. -/
def Linked (reach : α) : List ι → Prop
  | [] => True
  | i :: rest => start i < reach ∧ Linked (max reach (stop i)) rest

/-- Clusters in the order of the sweep. -/
structure Clusters (clusters : List (List ι)) : Prop where
  linked : ∀ cluster ∈ clusters, ∃ first rest,
    cluster = first :: rest ∧ Linked start stop (stop first) rest
  sorted : clusters.flatten.Pairwise fun i j => start i ≤ start j
  apart : clusters.Pairwise fun earlier later => ∀ i ∈ earlier, ∀ j ∈ later, stop i ≤ start j

variable {start stop} {items : List ι} {i j k first : ι} {rest : List ι}

theorem Overlaps.symm (h : Overlaps start stop i j) : Overlaps start stop j i :=
  ⟨h.2, h.1⟩

theorem Chained.symm (h : Chained start stop items i j) : Chained start stop items j i := by
  induction h with
  | refl => exact .refl
  | tail _ hstep ih => exact Relation.ReflTransGen.head ⟨hstep.2.1, hstep.1, hstep.2.2.symm⟩ ih

/-- The running end is the end of an item `k` met before, which every further item
overlaps that starts in front of it. -/
theorem Linked.chained_of_reach (hlinked : Linked start stop (stop k) rest)
    (hk : k ∈ items) (hsub : rest ⊆ items)
    (hbehind : ∀ i ∈ rest, start k ≤ start i)
    (hsorted : rest.Pairwise fun i j => start i ≤ start j)
    (hpos : ∀ i ∈ rest, start i < stop i) (hi : i ∈ rest) :
    Chained start stop items k i := by
  induction rest generalizing k with
  | nil => cases hi
  | cons next rest ih =>
      rw [List.pairwise_cons] at hsorted
      have hnext : Overlaps start stop k next :=
        ⟨(hbehind next List.mem_cons_self).trans_lt (hpos next List.mem_cons_self), hlinked.1⟩
      have hstep : Chained start stop items k next :=
        .single ⟨hk, hsub List.mem_cons_self, hnext⟩
      cases List.mem_cons.mp hi with
      | inl heq => exact heq ▸ hstep
      | inr hi =>
          have hsub' : rest ⊆ items := fun i hi => hsub (List.mem_cons_of_mem next hi)
          have hpos' : ∀ i ∈ rest, start i < stop i :=
            fun i hi => hpos i (List.mem_cons_of_mem next hi)
          -- the longer of the two ranges carries the running end on
          by_cases hlonger : stop k ≤ stop next
          · have hlinked' := hlinked.2
            rw [max_eq_right hlonger] at hlinked'
            exact hstep.trans
              (ih hlinked' (hsub List.mem_cons_self) hsub' hsorted.1 hsorted.2 hpos' hi)
          · have hlinked' := hlinked.2
            rw [max_eq_left (le_of_not_ge hlonger)] at hlinked'
            exact ih hlinked' hk hsub'
              (fun i hi => hbehind i (List.mem_cons_of_mem next hi)) hsorted.2 hpos' hi

namespace Clusters

variable {clusters : List (List ι)} {cluster : List ι}

/-- Two items of one cluster are connected. -/
theorem chained (h : Clusters start stop clusters)
    (hpos : ∀ i ∈ clusters.flatten, start i < stop i) (hcluster : cluster ∈ clusters)
    (hi : i ∈ cluster) (hj : j ∈ cluster) : Chained start stop clusters.flatten i j := by
  obtain ⟨first, rest, rfl, hlinked⟩ := h.linked cluster hcluster
  have hsub : first :: rest ⊆ clusters.flatten :=
    fun k hk => List.mem_flatten.mpr ⟨_, hcluster, hk⟩
  have hsorted : (first :: rest).Pairwise fun i j => start i ≤ start j :=
    h.sorted.sublist (List.sublist_flatten_of_mem hcluster)
  rw [List.pairwise_cons] at hsorted
  have hfirst : ∀ k ∈ first :: rest, Chained start stop clusters.flatten first k := by
    intro k hk
    cases List.mem_cons.mp hk with
    | inl heq => exact heq ▸ .refl
    | inr hk =>
        exact hlinked.chained_of_reach (hsub List.mem_cons_self)
          (fun k hk => hsub (List.mem_cons_of_mem first hk)) hsorted.1 hsorted.2
          (fun k hk => hpos k (hsub (List.mem_cons_of_mem first hk))) hk
  exact (hfirst i hi).symm.trans (hfirst j hj)

/-- An item that overlaps one of a cluster is in the cluster. -/
theorem mem_of_overlaps (h : Clusters start stop clusters) (hcluster : cluster ∈ clusters)
    (hi : i ∈ cluster) (hj : j ∈ clusters.flatten) (hoverlaps : Overlaps start stop i j) :
    j ∈ cluster := by
  obtain ⟨other, hother, hj⟩ := List.mem_flatten.mp hj
  by_cases heq : cluster = other
  · exact heq ▸ hj
  · exfalso
    have hapart := h.apart
    -- one of the two clusters comes first, and nothing of the later one starts in it
    have hcases : (∀ i ∈ cluster, ∀ j ∈ other, stop i ≤ start j) ∨
        (∀ i ∈ other, ∀ j ∈ cluster, stop i ≤ start j) := by
      obtain ⟨n, hn, rfl⟩ := List.getElem_of_mem hcluster
      obtain ⟨m, hm, rfl⟩ := List.getElem_of_mem hother
      have hne : n ≠ m := by
        rintro rfl
        exact heq rfl
      cases Nat.lt_or_gt_of_ne hne with
      | inl hlt => exact .inl (List.pairwise_iff_getElem.mp hapart n m hn hm hlt)
      | inr hlt => exact .inr (List.pairwise_iff_getElem.mp hapart m n hm hn hlt)
    cases hcases with
    | inl hbefore => exact absurd hoverlaps.2 (not_lt.mpr (hbefore i hi j hj))
    | inr hbefore => exact absurd hoverlaps.1 (not_lt.mpr (hbefore j hj i hi))

/-- **The clusters are the connected components.**  Two ranges are in one cluster
exactly when a chain of overlapping ranges connects them. -/
theorem together_iff_chained (h : Clusters start stop clusters)
    (hpos : ∀ i ∈ clusters.flatten, start i < stop i) (hi : i ∈ clusters.flatten) :
    (∃ cluster ∈ clusters, i ∈ cluster ∧ j ∈ cluster) ↔
      Chained start stop clusters.flatten i j := by
  constructor
  · rintro ⟨cluster, hcluster, hi, hj⟩
    exact h.chained hpos hcluster hi hj
  · intro hchain
    obtain ⟨cluster, hcluster, hi⟩ := List.mem_flatten.mp hi
    refine ⟨cluster, hcluster, hi, ?_⟩
    induction hchain with
    | refl => exact hi
    | tail _ hstep ih => exact h.mem_of_overlaps hcluster ih hstep.2.1 hstep.2.2

/-- The clusters of `items` behind a cluster that ends in front of all of them. -/
theorem cons (hlinked : Linked start stop (stop first) rest)
    (hsorted : ((first :: rest) ++ clusters.flatten).Pairwise fun i j => start i ≤ start j)
    (hapart : ∀ i ∈ first :: rest, ∀ j ∈ clusters.flatten, stop i ≤ start j)
    (h : Clusters start stop clusters) :
    Clusters start stop ((first :: rest) :: clusters) where
  linked := by
    intro cluster hcluster
    cases List.mem_cons.mp hcluster with
    | inl heq => exact ⟨first, rest, heq, hlinked⟩
    | inr hcluster => exact h.linked cluster hcluster
  sorted := by
    rw [List.flatten_cons]
    exact hsorted
  apart := by
    rw [List.pairwise_cons]
    refine ⟨fun later hlater i hi j hj => ?_, h.apart⟩
    exact hapart i hi j (List.mem_flatten.mpr ⟨later, hlater, hj⟩)

theorem nil : Clusters start stop ([] : List (List ι)) where
  linked := by simp
  sorted := by simp
  apart := by simp

end Clusters

end Ranges

end IntervalSweep
