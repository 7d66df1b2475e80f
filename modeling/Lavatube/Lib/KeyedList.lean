import Mathlib.Data.List.Basic
import Mathlib.Data.List.Nodup

/-!
# Lists that are searched by a key

A list of entries is searched from the front for the first one with a key.  If there is one it is
changed in place, and if there is none a new one goes to the back.

* `get?` — the search.
* `upsert` — the change, which may be refused.
* `get?_eq_some_iff` — where no key is there twice, the search is membership.
* `upsert_spec` — what a change does to such a list.
-/

namespace KeyedList

variable {E K : Type*}

/-- The first entry with a key. -/
def get? [DecidableEq K] (key : E → K) (k : K) (l : List E) : Option E :=
  l.find? fun e => key e = k

/-- The first entry that is found is changed, or a fresh one is put behind all others; `none` is a
refusal. -/
def upsert (found : E → Bool) (update : E → Option E) (fresh : Option E) :
    List E → Option (List E)
  | [] => fresh.map fun e => [e]
  | e :: l =>
      if found e then (update e).map fun e' => e' :: l
      else (upsert found update fresh l).map fun l' => e :: l'

/-- A change of what is kept under a key. -/
structure Changes (key : E → K) (k : K) (found : E → Bool) (update : E → Option E)
    (fresh : Option E) : Prop where
  found_iff : ∀ e, found e = true ↔ key e = k
  update_key : ∀ e e', key e = k → update e = some e' → key e' = k
  fresh_key : ∀ e, fresh = some e → key e = k

variable [DecidableEq K] {key : E → K} {k : K} {l : List E} {e : E}

theorem get?_eq_none_iff : get? key k l = none ↔ ∀ e ∈ l, key e ≠ k := by
  simp [get?, List.find?_eq_none]

theorem mem_of_get? (hget : get? key k l = some e) : e ∈ l ∧ key e = k := by
  refine ⟨List.mem_of_find?_eq_some hget, ?_⟩
  simpa using List.find?_some hget

theorem get?_cons (x : E) : get? key k (x :: l) = if key x = k then some x else get? key k l := by
  by_cases hx : key x = k
  · simp [get?, hx]
  · simp [get?, hx]

/-- Where no key is there twice, the search is membership. -/
theorem get?_eq_some_iff (hnodup : (l.map key).Nodup) :
    get? key k l = some e ↔ e ∈ l ∧ key e = k := by
  constructor
  · exact mem_of_get?
  · rintro ⟨hmem, rfl⟩
    induction l with
    | nil => cases hmem
    | cons x l ih =>
        rw [List.map_cons, List.nodup_cons] at hnodup
        rw [get?_cons]
        rcases List.mem_cons.mp hmem with rfl | hmem
        · exact if_pos rfl
        · have hne : key x ≠ key e := fun heq => hnodup.1 (heq ▸ List.mem_map_of_mem hmem)
          rw [if_neg hne]
          exact ih hnodup.2 hmem

section

variable {found : E → Bool} {update : E → Option E} {fresh : Option E}

/-- What is put in has the key. -/
theorem Changes.put_key (hchanges : Changes key k found update fresh)
    (hput : (get? key k l).elim fresh update = some e) : key e = k := by
  cases hheld : get? key k l with
  | none =>
      rw [hheld] at hput
      exact hchanges.fresh_key e hput
  | some held =>
      rw [hheld] at hput
      exact hchanges.update_key held e (mem_of_get? hheld).2 hput

/-- The keys after a change are those before it, and the one of the change. -/
theorem keys_of_mem_iff {l' : List E} (hkey : key e = k)
    (hmem : ∀ x, x ∈ l' ↔ x = e ∨ (x ∈ l ∧ key x ≠ k)) (other : K) :
    (∃ x ∈ l', key x = other) ↔ (∃ x ∈ l, key x = other) ∨ k = other := by
  constructor
  · rintro ⟨x, hx, rfl⟩
    rcases (hmem x).mp hx with rfl | ⟨hold, -⟩
    · exact .inr hkey.symm
    · exact .inl ⟨x, hold, rfl⟩
  · rintro (⟨x, hold, rfl⟩ | rfl)
    · by_cases hsame : key x = k
      · exact ⟨e, (hmem e).mpr (.inl rfl), hkey.trans hsame.symm⟩
      · exact ⟨x, (hmem x).mpr (.inr ⟨hold, hsame⟩), rfl⟩
    · exact ⟨e, (hmem e).mpr (.inl rfl), hkey⟩

/-- **A change** of what is kept under a key: the entry is what was made of the one that was there,
or the fresh one, and all others are as before. -/
theorem upsert_spec (hchanges : Changes key k found update fresh) (hnodup : (l.map key).Nodup)
    (hput : (get? key k l).elim fresh update = some e) :
    ∃ l', upsert found update fresh l = some l' ∧ (l'.map key).Nodup ∧
      ∀ x, x ∈ l' ↔ x = e ∨ (x ∈ l ∧ key x ≠ k) := by
  have hkey : key e = k := hchanges.put_key hput
  induction l with
  | nil =>
      replace hput : fresh = some e := hput
      exact ⟨[e], by simp [upsert, hput], by simp, by simp⟩
  | cons x l ih =>
      rw [get?_cons] at hput
      rw [List.map_cons, List.nodup_cons] at hnodup
      by_cases hx : key x = k
      · -- the entry is found, and no other one has the key
        rw [if_pos hx] at hput
        replace hput : update x = some e := hput
        have hothers : ∀ y ∈ l, key y ≠ k := fun y hy heq =>
          hnodup.1 ((hx.trans heq.symm) ▸ List.mem_map_of_mem hy)
        refine ⟨e :: l, ?_, ?_, fun y => ?_⟩
        · simp [upsert, (hchanges.found_iff x).mpr hx, hput]
        · rw [List.map_cons, hkey, ← hx]
          exact List.nodup_cons.mpr hnodup
        · rw [List.mem_cons, List.mem_cons]
          constructor
          · rintro (heq | hy)
            · exact .inl heq
            · exact .inr ⟨.inr hy, hothers y hy⟩
          · rintro (heq | ⟨rfl | hy, hne⟩)
            · exact .inl heq
            · exact absurd hx hne
            · exact .inr hy
      · rw [if_neg hx] at hput
        obtain ⟨l', hupsert, hnodup', hmem⟩ := ih hnodup.2 hput
        have hfound : found x = false :=
          Bool.eq_false_iff.mpr fun h => hx ((hchanges.found_iff x).mp h)
        refine ⟨x :: l', ?_, ?_, fun y => ?_⟩
        · simp [upsert, hfound, hupsert]
        · rw [List.map_cons, List.nodup_cons]
          refine ⟨fun hin => ?_, hnodup'⟩
          rcases (keys_of_mem_iff hkey hmem _).mp (List.mem_map.mp hin) with ⟨y, hy, heq⟩ | heq
          · exact hnodup.1 (heq ▸ List.mem_map_of_mem hy)
          · exact hx heq.symm
        · rw [List.mem_cons, List.mem_cons, hmem]
          constructor
          · rintro (rfl | rfl | ⟨hy, hne⟩)
            · exact .inr ⟨.inl rfl, hx⟩
            · exact .inl rfl
            · exact .inr ⟨.inr hy, hne⟩
          · rintro (rfl | ⟨rfl | hy, hne⟩)
            · exact .inr (.inl rfl)
            · exact .inl rfl
            · exact .inr (.inr ⟨hy, hne⟩)

/-- What is kept under other keys is the same. -/
theorem get?_of_mem_iff {l' : List E} (hnodup : (l.map key).Nodup) (hnodup' : (l'.map key).Nodup)
    (hkey : key e = k) (hmem : ∀ x, x ∈ l' ↔ x = e ∨ (x ∈ l ∧ key x ≠ k)) {other : K}
    (hother : other ≠ k) : get? key other l' = get? key other l := by
  ext x
  rw [get?_eq_some_iff hnodup', get?_eq_some_iff hnodup, hmem]
  constructor
  · rintro ⟨rfl | ⟨hx, -⟩, hxkey⟩
    · exact absurd (hxkey.symm.trans hkey) hother
    · exact ⟨hx, hxkey⟩
  · rintro ⟨hx, rfl⟩
    exact ⟨.inr ⟨hx, hother⟩, rfl⟩

end

end KeyedList
