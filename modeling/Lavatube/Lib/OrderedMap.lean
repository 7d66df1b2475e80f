import Mathlib.Tactic

/-!
# Ordered maps as sorted association lists

A map with keys of a linear order, kept as a list of entries with strictly
increasing keys, and the walk over its entries from a key downwards.

* `find?_insert`, `find?_erase` — what the operations do to the lookup.
* `find?_eq_some_iff` — the lookup finds the entries of the list.
* `entries_eq` — the list is known from its entries.
* `mem_downFrom_iff`, `downFrom_decreasing` — the walk meets the entries up to the key, the
  greatest one first.
-/

/-- Entries with strictly increasing keys. -/
structure OrderedMap (K V : Type*) [LinearOrder K] where
  entries : List (K × V)
  sorted : entries.Pairwise fun e e' => e.1 < e'.1

namespace OrderedMap

variable {K V : Type*} [LinearOrder K]

/-- The map without entries. -/
def empty : OrderedMap K V := ⟨[], List.Pairwise.nil⟩

/-- The value of the first entry with the key. -/
def lookup (key : K) : List (K × V) → Option V
  | [] => none
  | e :: rest => if e.1 = key then some e.2 else lookup key rest

/-- Put an entry in its place, over the entry with the same key. -/
def insertEntry (key : K) (value : V) : List (K × V) → List (K × V)
  | [] => [(key, value)]
  | e :: rest =>
      if key < e.1 then (key, value) :: e :: rest
      else if key = e.1 then (key, value) :: rest
      else e :: insertEntry key value rest

theorem mem_insertEntry {key : K} {value : V} {entries : List (K × V)} {e : K × V}
    (hmem : e ∈ insertEntry key value entries) : e = (key, value) ∨ e ∈ entries := by
  induction entries with
  | nil => exact Or.inl (List.mem_singleton.mp hmem)
  | cons first rest ih =>
      unfold insertEntry at hmem
      split_ifs at hmem
      · exact List.mem_cons.mp hmem
      · rcases List.mem_cons.mp hmem with h | h
        · exact Or.inl h
        · exact Or.inr (List.mem_cons_of_mem _ h)
      · rcases List.mem_cons.mp hmem with rfl | h
        · exact Or.inr List.mem_cons_self
        · exact (ih h).imp_right (List.mem_cons_of_mem _)

theorem sorted_insertEntry {key : K} {value : V} {entries : List (K × V)}
    (hsorted : entries.Pairwise fun e e' => e.1 < e'.1) :
    (insertEntry key value entries).Pairwise fun e e' => e.1 < e'.1 := by
  induction entries with
  | nil => exact List.pairwise_singleton _ _
  | cons first rest ih =>
      obtain ⟨hfirst, hrest⟩ := List.pairwise_cons.mp hsorted
      unfold insertEntry
      split_ifs with hlt heq
      · refine List.pairwise_cons.mpr ⟨fun e he => ?_, hsorted⟩
        rcases List.mem_cons.mp he with rfl | he
        · exact hlt
        · exact hlt.trans (hfirst e he)
      · exact List.pairwise_cons.mpr ⟨fun e he => heq ▸ hfirst e he, hrest⟩
      · refine List.pairwise_cons.mpr ⟨fun e he => ?_, ih hrest⟩
        rcases mem_insertEntry he with rfl | he
        · exact lt_of_le_of_ne (not_lt.mp hlt) (Ne.symm heq)
        · exact hfirst e he

/-- `insert_or_assign`. -/
def insert (m : OrderedMap K V) (key : K) (value : V) : OrderedMap K V where
  entries := insertEntry key value m.entries
  sorted := sorted_insertEntry m.sorted

/-- Remove the entry with the key. -/
def erase (m : OrderedMap K V) (key : K) : OrderedMap K V where
  entries := m.entries.filter fun e => e.1 ≠ key
  sorted := m.sorted.filter _

/-- The value at a key. -/
def find? (m : OrderedMap K V) (key : K) : Option V := lookup key m.entries

/-- The entries from the last one with a key up to `key` back to the first one. -/
def downFrom (m : OrderedMap K V) (key : K) : List (K × V) :=
  (m.entries.takeWhile fun e => e.1 ≤ key).reverse

@[simp] theorem find?_empty (key : K) : (empty : OrderedMap K V).find? key = none := rfl

theorem lookup_eq_none_of_forall {key : K} {entries : List (K × V)}
    (h : ∀ e ∈ entries, e.1 ≠ key) : lookup key entries = none := by
  induction entries with
  | nil => rfl
  | cons first rest ih =>
      obtain ⟨hfirst, hrest⟩ := List.forall_mem_cons.mp h
      unfold lookup
      rw [if_neg hfirst]
      exact ih hrest

theorem lookup_insertEntry {key other : K} {value : V} {entries : List (K × V)} :
    lookup other (insertEntry key value entries) =
      if other = key then some value else lookup other entries := by
  induction entries with
  | nil => simp [insertEntry, lookup, eq_comm]
  | cons first rest ih =>
      unfold insertEntry
      by_cases hother : other = key
      · subst hother
        rw [if_pos rfl] at ih ⊢
        split_ifs with hlt heq
        · exact if_pos rfl
        · exact if_pos rfl
        · -- the entry lies behind the first one
          unfold lookup
          rw [if_neg (show ¬ first.1 = other from fun h => heq h.symm), ih]
      · rw [if_neg hother] at ih ⊢
        split_ifs with hlt heq
        · exact if_neg (Ne.symm hother)
        · subst heq
          simp only [lookup, if_neg (Ne.symm hother)]
        · simp only [lookup, ih]

/-- The value at a key behind an insertion. -/
theorem find?_insert (m : OrderedMap K V) (key other : K) (value : V) :
    (m.insert key value).find? other = if other = key then some value else m.find? other :=
  lookup_insertEntry

theorem lookup_filter {key other : K} (hother : other ≠ key) (entries : List (K × V)) :
    lookup other (entries.filter fun e => e.1 ≠ key) = lookup other entries := by
  induction entries with
  | nil => rfl
  | cons first rest ih =>
      rw [List.filter_cons]
      by_cases hfirst : first.1 = key
      · rw [if_neg (by simp [hfirst]), ih]
        simp only [lookup, if_neg (show ¬ first.1 = other from fun h => hother (h ▸ hfirst))]
      · rw [if_pos (by simp [hfirst])]
        simp only [lookup, ih]

/-- The value at a key behind a removal. -/
theorem find?_erase (m : OrderedMap K V) (key other : K) :
    (m.erase key).find? other = if other = key then none else m.find? other := by
  unfold find? erase
  by_cases hother : other = key
  · rw [if_pos hother]
    exact lookup_eq_none_of_forall fun e he => by
      simpa [hother] using (List.mem_filter.mp he).2
  · rw [if_neg hother]
    exact lookup_filter hother m.entries

theorem lookup_eq_some_iff {key : K} {value : V} {entries : List (K × V)}
    (hsorted : entries.Pairwise fun e e' => e.1 < e'.1) :
    lookup key entries = some value ↔ (key, value) ∈ entries := by
  induction entries with
  | nil => simp [lookup]
  | cons first rest ih =>
      obtain ⟨hfirst, hrest⟩ := List.pairwise_cons.mp hsorted
      unfold lookup
      split_ifs with hkey
      · rw [Option.some_inj]
        constructor
        · rintro rfl
          rw [← hkey]
          exact List.mem_cons_self
        · intro hmem
          rcases List.mem_cons.mp hmem with rfl | hmem
          · rfl
          · exact absurd (hfirst _ hmem) (by simp [hkey])
      · rw [ih hrest, List.mem_cons, or_iff_right]
        rintro rfl
        exact hkey rfl

/-- The lookup finds the entries of the list. -/
theorem find?_eq_some_iff {m : OrderedMap K V} {key : K} {value : V} :
    m.find? key = some value ↔ (key, value) ∈ m.entries :=
  lookup_eq_some_iff m.sorted

/-- The entries are known from their members. -/
theorem entries_eq {m : OrderedMap K V} {entries : List (K × V)}
    (hsorted : entries.Pairwise fun e e' => e.1 < e'.1)
    (hmem : ∀ e, e ∈ m.entries ↔ e ∈ entries) : m.entries = entries := by
  have hnodup : ∀ {l : List (K × V)}, l.Pairwise (fun e e' => e.1 < e'.1) → l.Nodup :=
    fun h => h.imp fun hlt heq => absurd hlt (by rw [heq]; exact lt_irrefl _)
  have hperm := (List.perm_ext_iff_of_nodup (hnodup m.sorted) (hnodup hsorted)).mpr hmem
  refine hperm.eq_of_pairwise (fun e e' _ _ hlt hgt => ?_) m.sorted hsorted
  exact absurd hlt (not_lt.mpr hgt.le)

theorem mem_takeWhile_iff {key : K} {entries : List (K × V)} {e : K × V}
    (hsorted : entries.Pairwise fun e e' => e.1 < e'.1) :
    e ∈ entries.takeWhile (fun e => e.1 ≤ key) ↔ e ∈ entries ∧ e.1 ≤ key := by
  induction entries with
  | nil => simp
  | cons first rest ih =>
      obtain ⟨hfirst, hrest⟩ := List.pairwise_cons.mp hsorted
      rw [List.takeWhile_cons]
      by_cases hle : first.1 ≤ key
      · rw [if_pos (by simpa using hle), List.mem_cons, ih hrest, List.mem_cons]
        constructor
        · rintro (rfl | ⟨hmem, hekey⟩)
          · exact ⟨Or.inl rfl, hle⟩
          · exact ⟨Or.inr hmem, hekey⟩
        · rintro ⟨rfl | hmem, hekey⟩
          · exact Or.inl rfl
          · exact Or.inr ⟨hmem, hekey⟩
      · -- all keys behind the first one are larger still
        rw [if_neg (by simpa using hle)]
        simp only [List.not_mem_nil, false_iff, not_and, not_le]
        intro hmem
        rcases List.mem_cons.mp hmem with rfl | hmem
        · exact not_le.mp hle
        · exact (not_le.mp hle).trans (hfirst e hmem)

/-- The walk meets the entries with keys up to `key`. -/
theorem mem_downFrom_iff {m : OrderedMap K V} {key : K} {e : K × V} :
    e ∈ m.downFrom key ↔ e ∈ m.entries ∧ e.1 ≤ key := by
  rw [downFrom, List.mem_reverse]
  exact mem_takeWhile_iff m.sorted

/-- The walk goes from greater keys to smaller ones. -/
theorem downFrom_decreasing (m : OrderedMap K V) (key : K) :
    (m.downFrom key).Pairwise fun e e' => e'.1 < e.1 := by
  rw [downFrom, List.pairwise_reverse]
  exact m.sorted.sublist (List.takeWhile_sublist _)

end OrderedMap
