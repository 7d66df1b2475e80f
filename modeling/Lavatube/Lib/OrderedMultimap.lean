import Mathlib.Tactic

/-!
# Ordered multimaps

A map that may hold several values under one key, kept as a list of entries in the order of their
keys.  A new entry goes behind those of its key, and a search by key finds the first one of them,
so the values of one key are a queue.

* `values` — the values of a key, in the order in which they came.
* `values_insert`, `values_erase`, `find_eq_head?` — what the operations do to the queues.
* `count_entries` — how often an entry is in the map.
-/

/-- Entries in the order of their keys. -/
structure OrderedMultimap (K V : Type*) [LinearOrder K] where
  entries : List (K × V)
  sorted : entries.Pairwise fun e e' => e.1 ≤ e'.1

namespace OrderedMultimap

variable {K V : Type*} [LinearOrder K]

/-- The map without entries. -/
def empty : OrderedMultimap K V := ⟨[], List.Pairwise.nil⟩

/-- Put an entry in front of the first one with a greater key. -/
def insertEntry (key : K) (value : V) : List (K × V) → List (K × V)
  | [] => [(key, value)]
  | e :: rest => if key < e.1 then (key, value) :: e :: rest else e :: insertEntry key value rest

theorem mem_insertEntry {key : K} {value : V} {entries : List (K × V)} {e : K × V}
    (hmem : e ∈ insertEntry key value entries) : e = (key, value) ∨ e ∈ entries := by
  induction entries with
  | nil => exact Or.inl (List.mem_singleton.mp hmem)
  | cons first rest ih =>
      unfold insertEntry at hmem
      split_ifs at hmem
      · exact List.mem_cons.mp hmem
      · rcases List.mem_cons.mp hmem with rfl | h
        · exact Or.inr List.mem_cons_self
        · exact (ih h).imp_right (List.mem_cons_of_mem _)

theorem sorted_insertEntry {key : K} {value : V} {entries : List (K × V)}
    (hsorted : entries.Pairwise fun e e' => e.1 ≤ e'.1) :
    (insertEntry key value entries).Pairwise fun e e' => e.1 ≤ e'.1 := by
  induction entries with
  | nil => exact List.pairwise_singleton _ _
  | cons first rest ih =>
      obtain ⟨hfirst, hrest⟩ := List.pairwise_cons.mp hsorted
      unfold insertEntry
      split_ifs with hlt
      · refine List.pairwise_cons.mpr ⟨fun e he => ?_, hsorted⟩
        rcases List.mem_cons.mp he with rfl | he
        · exact hlt.le
        · exact hlt.le.trans (hfirst e he)
      · refine List.pairwise_cons.mpr ⟨fun e he => ?_, ih hrest⟩
        rcases mem_insertEntry he with rfl | he
        · exact not_lt.mp hlt
        · exact hfirst e he

/-- `insert`. -/
def insert (m : OrderedMultimap K V) (key : K) (value : V) : OrderedMultimap K V where
  entries := insertEntry key value m.entries
  sorted := sorted_insertEntry m.sorted

/-- `find`: the first entry with the key. -/
def find (m : OrderedMultimap K V) (key : K) : Option (K × V) :=
  m.entries.find? fun e => e.1 = key

/-- `erase` of the entry that `find` finds. -/
def erase (m : OrderedMultimap K V) (key : K) : OrderedMultimap K V where
  entries := m.entries.eraseP fun e => e.1 = key
  sorted := m.sorted.sublist (List.eraseP_sublist)

/-- The values of the entries with the key. -/
def valuesOf (key : K) (entries : List (K × V)) : List V :=
  (entries.filter fun e => e.1 = key).map Prod.snd

/-- The values of a key, in the order in which they came. -/
def values (m : OrderedMultimap K V) (key : K) : List V := valuesOf key m.entries

variable {m : OrderedMultimap K V} {key other : K} {value : V} {entries : List (K × V)}

@[simp] theorem values_empty : (empty : OrderedMultimap K V).values key = [] := rfl

theorem valuesOf_eq_nil_of_lt (hlt : ∀ e ∈ entries, key < e.1) : valuesOf key entries = [] := by
  have hnone : entries.filter (fun e => e.1 = key) = [] := by
    rw [List.filter_eq_nil_iff]
    intro e he
    simpa using (hlt e he).ne'
  rw [valuesOf, hnone, List.map_nil]

theorem valuesOf_insertEntry (hsorted : entries.Pairwise fun e e' => e.1 ≤ e'.1) :
    valuesOf other (insertEntry key value entries) =
      if other = key then valuesOf other entries ++ [value] else valuesOf other entries := by
  induction entries with
  | nil =>
      by_cases h : other = key
      · simp [insertEntry, valuesOf, h]
      · simp [insertEntry, valuesOf, h, Ne.symm h]
  | cons first rest ih =>
      obtain ⟨hfirst, hrest⟩ := List.pairwise_cons.mp hsorted
      unfold insertEntry
      split_ifs with hlt heq heq
      · -- every entry has a greater key, so none of the key is there yet
        subst heq
        have hnil : valuesOf other (first :: rest) = [] := by
          refine valuesOf_eq_nil_of_lt fun e he => ?_
          rcases List.mem_cons.mp he with rfl | he
          · exact hlt
          · exact hlt.trans_le (hfirst e he)
        rw [hnil]
        simpa [valuesOf] using hnil
      · simp [valuesOf, Ne.symm heq]
      · have hih := ih hrest
        rw [if_pos heq] at hih
        by_cases hkey : first.1 = other
        · simp only [valuesOf] at hih ⊢
          simp [hkey, hih]
        · simp only [valuesOf] at hih ⊢
          simp [hkey, hih]
      · have hih := ih hrest
        rw [if_neg heq] at hih
        by_cases hkey : first.1 = other
        · simp only [valuesOf] at hih ⊢
          simp [hkey, hih]
        · simp only [valuesOf] at hih ⊢
          simp [hkey, hih]

theorem values_insert :
    (m.insert key value).values other =
      if other = key then m.values other ++ [value] else m.values other :=
  valuesOf_insertEntry m.sorted

theorem valuesOf_eraseP :
    valuesOf other (entries.eraseP fun e => e.1 = key) =
      if other = key then (valuesOf other entries).tail else valuesOf other entries := by
  induction entries with
  | nil => simp [valuesOf]
  | cons first rest ih =>
      by_cases hkey : first.1 = key
      · rw [List.eraseP_cons_of_pos (by simpa using hkey)]
        by_cases hother : other = key
        · simp [valuesOf, hkey, hother]
        · simp [valuesOf, hkey, hother, Ne.symm hother]
      · rw [List.eraseP_cons_of_neg (by simpa using hkey)]
        by_cases hother : other = key
        · subst hother
          simpa [valuesOf, hkey] using ih
        · rw [if_neg hother] at ih ⊢
          simp only [valuesOf] at ih ⊢
          by_cases hfirst : first.1 = other
          · simp [hfirst, ih]
          · simp [hfirst, ih]

theorem values_erase :
    (m.erase key).values other =
      if other = key then (m.values other).tail else m.values other :=
  valuesOf_eraseP

theorem find_eq_head? : m.find key = (m.values key).head?.map fun value => (key, value) := by
  unfold find values valuesOf
  induction m.entries with
  | nil => rfl
  | cons first rest ih =>
      by_cases hkey : first.1 = key
      · simp [← hkey]
      · simpa [hkey] using ih

theorem find_isSome_iff : (m.find key).isSome ↔ m.values key ≠ [] := by
  rw [find_eq_head?, Option.isSome_map, List.isSome_head?]

theorem mem_entries_iff : (key, value) ∈ m.entries ↔ value ∈ m.values key := by
  simp [values, valuesOf]

/-- An entry is in the map as often as its value is in the queue of its key. -/
theorem count_entries [DecidableEq V] :
    m.entries.count (key, value) = (m.values key).count value := by
  unfold values valuesOf
  induction m.entries with
  | nil => rfl
  | cons first rest ih =>
      obtain ⟨k, v⟩ := first
      by_cases hkey : k = key
      · subst hkey
        by_cases hvalue : v = value
        · simp [hvalue, ih]
        · simp [hvalue, ih]
      · simp [hkey, ih]

end OrderedMultimap
