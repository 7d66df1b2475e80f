import Lavatube.Lib.Transition

/-!
# Handle maps of the replay

The `replay_remap` of `containers.h`: the forward map from trace indices to the
handles of the replaying driver, and the reverse map from handles to indices.
The two are separate containers; `set`, `replace` and `unset` update both.

* `Remap.Agree` — the two maps say the same about every non-null handle.
* `Inv` — the reverse map is the inverse of the forward map.
* `Drops` — the calls that take a handle out of the forward map.
* `maps_agree_iff` — the maps agree in every state of a run exactly if no call
  of the run takes a handle out: neither `unset` nor `replace` removes the entry
  of the old handle from the reverse map.
-/

namespace Lavatube
namespace ReplayRemap

open Transition

/-- `CONTAINER_INVALID_INDEX`. -/
def invalidIndex : Nat := 2 ^ 32 - 1

/-- `CONTAINER_NULL_VALUE`. -/
def nullValue : Nat := 2 ^ 32 - 2

/-- `class replay_remap`. -/
structure Remap (T : Type) where
  remapping : List T
  reverse : T → Option Nat

section Maps

variable {T : Type} [DecidableEq T] [Zero T]

namespace Remap

/-- `replay_remap::resize` on the empty map. -/
def resize (size : Nat) : Remap T where
  remapping := List.replicate size 0
  reverse := fun _ => none

/-- `replay_remap::set`; `none` is a failed assertion. -/
def set (r : Remap T) (index : Nat) (handle : T) : Option (Remap T) :=
  if r.remapping[index]? = some 0 ∧ handle ≠ 0 then
    some { remapping := r.remapping.set index handle
           reverse := Function.update r.reverse handle (some index) }
  else
    none

/-- `replay_remap::replace`; the index has to be one of the vector. -/
def replace (r : Remap T) (index : Nat) (handle : T) : Option (Remap T) :=
  if index < r.remapping.length then
    some { remapping := r.remapping.set index handle
           reverse := Function.update r.reverse handle (some index) }
  else
    none

/-- `replay_remap::unset`; `none` is a failed assertion. -/
def unset (r : Remap T) (index : Nat) : Option (Remap T) :=
  if index = nullValue then
    some r
  else
    match r.remapping[index]? with
    | none => none
    | some handle =>
        if handle ≠ 0 then
          some { remapping := r.remapping.set index 0
                 reverse := Function.update r.reverse handle (some 0) }
        else
          none

/-- `replay_remap::index_or_invalid`. -/
def indexOrInvalid (r : Remap T) (handle : T) : Nat :=
  if handle = 0 then nullValue
  else
    match r.reverse handle with
    | none => invalidIndex
    | some index => index

/-- Some index holds the handle. -/
def Holds (r : Remap T) (handle : T) : Prop :=
  ∃ index : Nat, r.remapping[index]? = some handle

/-- Forward and reverse map agree: `index_or_invalid` finds the index that holds
a handle, and the invalid index exactly if no index does. -/
def Agree (r : Remap T) : Prop :=
  ∀ handle, handle ≠ 0 →
    (∀ index < r.remapping.length,
      r.indexOrInvalid handle = index ↔ r.remapping[index]? = some handle) ∧
    (r.indexOrInvalid handle = invalidIndex ↔ ¬ r.Holds handle)

end Remap

/-- The calls that change the maps. -/
inductive Op (T : Type) where
  | set (index : Nat) (handle : T)
  | replace (index : Nat) (handle : T)
  | unset (index : Nat)
deriving DecidableEq, Repr

/-- One call. -/
def Op.apply (r : Remap T) : Op T → Option (Remap T)
  | .set index handle => r.set index handle
  | .replace index handle => r.replace index handle
  | .unset index => r.unset index

/-- The caller's promise: a handle that becomes live is held by no other index. -/
def Op.Distinct (r : Remap T) : Op T → Prop
  | .set index handle | .replace index handle =>
      handle ≠ 0 → ∀ other < r.remapping.length,
        r.remapping[other]? = some handle → other = index
  | .unset _ => True

instance (r : Remap T) : (op : Op T) → Decidable (op.Distinct r)
  | .set index handle | .replace index handle =>
      inferInstanceAs (Decidable (handle ≠ 0 → ∀ other < r.remapping.length,
        r.remapping[other]? = some handle → other = index))
  | .unset _ => .isTrue trivial

/-- One call as the replay makes it. -/
def step (r : Remap T) (op : Op T) : Option (Remap T) :=
  if op.Distinct r then op.apply r else none

/-- The calls that take a handle out of the forward map: every `unset` of an
index, and a `replace` of one handle by another. -/
def Op.Drops (r : Remap T) : Op T → Prop
  | .set _ _ => False
  | .replace index handle =>
      r.remapping[index]? ≠ some 0 ∧ r.remapping[index]? ≠ some handle
  | .unset index => index ≠ nullValue

/-- The reverse map is the inverse of the forward map, and no index is the
invalid one. -/
structure Inv (r : Remap T) : Prop where
  inverse : ∀ handle, handle ≠ 0 → ∀ index,
    r.reverse handle = some index ↔ r.remapping[index]? = some handle
  small : r.remapping.length ≤ invalidIndex

omit [DecidableEq T] in
theorem inv_resize {size : Nat} (hsize : size < 2 ^ 32) :
    Inv (Remap.resize size : Remap T) := by
  constructor
  · intro handle hhandle index
    simp only [Remap.resize, List.getElem?_replicate, reduceCtorEq, false_iff]
    split
    · intro hzero
      exact hhandle (Option.some.inj hzero).symm
    · simp
  · simp only [Remap.resize, List.length_replicate, invalidIndex]
    omega

theorem Inv.agree {r : Remap T} (hinv : Inv r) : r.Agree := by
  intro handle hhandle
  unfold Remap.indexOrInvalid
  rw [if_neg hhandle]
  cases hrev : r.reverse handle with
  | none =>
      have habsent : ¬ r.Holds handle := by
        rintro ⟨index, hindex⟩
        rw [← hinv.inverse handle hhandle, hrev] at hindex
        cases hindex
      constructor
      · intro index hlt
        have hne : invalidIndex ≠ index := by
          have := hinv.small
          omega
        simp only [hne, false_iff]
        exact fun hindex => habsent ⟨index, hindex⟩
      · simp [habsent]
  | some found =>
      have hfound := (hinv.inverse handle hhandle found).mp hrev
      constructor
      · intro index _
        rw [← hinv.inverse handle hhandle, hrev, Option.some_inj]
      · have hlt := (List.getElem?_eq_some_iff.mp hfound).1
        have hne : found ≠ invalidIndex := by
          have := hinv.small
          omega
        simp only [hne, false_iff, not_not]
        exact ⟨found, hfound⟩

/-- Storing a handle at an index that holds nothing else keeps the maps inverse. -/
theorem Inv.store {r : Remap T} (hinv : Inv r) {index : Nat} {handle : T}
    (hlt : index < r.remapping.length)
    (hfree : r.remapping[index]? = some 0 ∨ r.remapping[index]? = some handle)
    (hdistinct : handle ≠ 0 → ∀ other < r.remapping.length,
      r.remapping[other]? = some handle → other = index) :
    Inv { remapping := r.remapping.set index handle
          reverse := Function.update r.reverse handle (some index) } := by
  constructor
  · intro other hother place
    simp only [List.getElem?_set]
    by_cases hsame : other = handle
    · subst hsame
      rw [Function.update_self, Option.some_inj]
      by_cases hplace : index = place
      · simp [hplace, hplace ▸ hlt]
      · rw [if_neg hplace]
        simp only [hplace, false_iff]
        intro hheld
        have hin := (List.getElem?_eq_some_iff.mp hheld).1
        exact hplace (hdistinct hother place hin hheld).symm
    · rw [Function.update_of_ne hsame, hinv.inverse other hother]
      by_cases hplace : index = place
      · -- the index held nothing, or the handle that it holds now
        subst hplace
        rw [if_pos rfl, if_pos hlt, Option.some_inj]
        constructor
        · intro hheld
          rcases hfree with hfree | hfree
          · rw [hfree, Option.some_inj] at hheld
            exact (hother hheld.symm).elim
          · rw [hfree, Option.some_inj] at hheld
            exact hheld
        · intro heq
          exact (hsame heq.symm).elim
      · rw [if_neg hplace]
  · simpa using hinv.small

/-- A call that takes no handle out keeps the maps inverse. -/
theorem step_inv {r next : Remap T} {op : Op T} (hinv : Inv r)
    (hkeeps : ¬ op.Drops r) (hstep : step r op = some next) : Inv next := by
  unfold step at hstep
  split at hstep
  · case _ hdistinct =>
      cases op with
      | set index handle =>
          simp only [Op.apply, Remap.set] at hstep
          split at hstep
          · case _ hempty =>
              cases hstep
              exact hinv.store (List.getElem?_eq_some_iff.mp hempty.1).1
                (Or.inl hempty.1) hdistinct
          · cases hstep
      | replace index handle =>
          simp only [Op.apply, Remap.replace] at hstep
          split at hstep
          · case _ hlt =>
              cases hstep
              have hfree : r.remapping[index]? = some 0 ∨
                  r.remapping[index]? = some handle := by
                unfold Op.Drops at hkeeps
                tauto
              exact hinv.store hlt hfree hdistinct
          · cases hstep
      | unset index =>
          have hnull : index = nullValue := not_not.mp hkeeps
          simp only [Op.apply, Remap.unset, if_pos hnull] at hstep
          cases hstep
          exact hinv
  · cases hstep

/-- A call that takes a handle out leaves it in the reverse map. -/
theorem not_agree_of_drops {r next : Remap T} {op : Op T} (hinv : Inv r)
    (hdrops : op.Drops r) (hstep : step r op = some next) : ¬ next.Agree := by
  unfold step at hstep
  split at hstep
  · cases op with
    | set index handle => exact hdrops.elim
    | replace index handle =>
        simp only [Op.apply, Remap.replace] at hstep
        split at hstep
        · case _ hlt =>
            cases hstep
            intro hagree
            -- the old handle still leads to the index that lost it
            have hold : r.remapping[index]? = some r.remapping[index] :=
              List.getElem?_eq_getElem hlt
            have hnonzero : r.remapping[index] ≠ 0 := by
              intro hzero
              exact hdrops.1 (by rw [hold, hzero])
            have hother : r.remapping[index] ≠ handle := by
              intro hsame
              exact hdrops.2 (by rw [hold, hsame])
            have hrev := (hinv.inverse _ hnonzero index).mpr hold
            have hstale := ((hagree _ hnonzero).1 index (by simpa using hlt)).mp (by
              unfold Remap.indexOrInvalid
              rw [if_neg hnonzero]
              simp only [Function.update_of_ne hother, hrev])
            simp only [List.getElem?_set_self hlt, Option.some_inj] at hstale
            exact hother hstale.symm
        · cases hstep
    | unset index =>
        simp only [Op.apply, Remap.unset, if_neg hdrops] at hstep
        split at hstep
        · cases hstep
        · case _ handle hold =>
            split at hstep
            · case _ hnonzero =>
                cases hstep
                intro hagree
                have hlt := (List.getElem?_eq_some_iff.mp hold).1
                -- nobody holds the handle any more, but it leads to index 0
                have hgone : ¬ Remap.Holds
                    { remapping := r.remapping.set index 0
                      reverse := Function.update r.reverse handle (some 0) } handle := by
                  rintro ⟨place, hplace⟩
                  simp only [List.getElem?_set] at hplace
                  split at hplace
                  · simp only [Option.some_inj] at hplace
                    exact hnonzero hplace.symm
                  · case _ hne =>
                      rw [← hinv.inverse handle hnonzero,
                        (hinv.inverse handle hnonzero index).mpr hold] at hplace
                      exact hne (Option.some.inj hplace)
                have hzero := (hagree handle hnonzero).2.mpr hgone
                unfold Remap.indexOrInvalid at hzero
                rw [if_neg hnonzero] at hzero
                simp only [Function.update_self] at hzero
                exact absurd hzero (by decide)
            · cases hstep
  · cases hstep

/-- **Where the maps agree.**  Let the replay make any `set`, `replace` and
`unset` calls on a map of any size, on empty indices and with distinct live
handles.  Then the two maps agree in every state of the run if and only if no
call of the run takes a handle out of the forward map. -/
theorem maps_agree_iff {size : Nat} (hsize : size < 2 ^ 32) {ops : List (Op T)}
    {final : Remap T} (hrun : exec step (Remap.resize size) ops = some final) :
    (∀ k middle, exec step (Remap.resize size) (ops.take k) = some middle →
      middle.Agree) ↔
      Along step (fun r op => ¬ op.Drops r) (Remap.resize size) ops := by
  apply prefixes_iff_along
  · intro r (hinv : Inv r)
    exact hinv.agree
  · intro r op next hinv hkeeps hstep
    exact step_inv hinv hkeeps hstep
  · intro r op next hinv hstep hagree hdrops
    exact not_agree_of_drops hinv hdrops hstep hagree
  · exact inv_resize hsize
  · exact hrun

end Maps

/-- A run that only fills and refills: a `replace` with the handle that is there. -/
def fillingRun : List (Op Nat) := [.set 0 7, .set 1 8, .replace 1 8, .unset nullValue]

/-- The filling run satisfies the hypotheses, so the maps agree throughout. -/
theorem maps_agree_iff_fillingRun :
    ∃ final, exec step (Remap.resize 2) fillingRun = some final ∧
      (∀ k middle, exec step (Remap.resize 2) (fillingRun.take k) = some middle →
        middle.Agree) := by
  refine ⟨_, rfl, (maps_agree_iff (by decide) rfl).mpr ?_⟩
  simp [fillingRun, Along, Op.Drops, step, Op.Distinct, Op.apply, Remap.set,
    Remap.replace, Remap.resize]

/-- A handle that was unset leads to index 0, which another handle holds, and a
handle that was replaced still leads to its old index. -/
theorem dropped_handles_still_resolve :
    (∃ r, exec step (Remap.resize 2) [.set 0 (7 : Nat), .set 1 8, .unset 1] = some r ∧
      ¬ r.Holds 8 ∧ r.indexOrInvalid 8 = 0 ∧ ¬ r.Agree) ∧
    (∃ r, exec step (Remap.resize 2) [.set 1 (8 : Nat), .replace 1 9] = some r ∧
      ¬ r.Holds 8 ∧ r.indexOrInvalid 8 = 1 ∧ ¬ r.Agree) := by
  constructor
  · have hgone : ¬ Remap.Holds ⟨[7, 0], Function.update (Function.update (Function.update
        (fun _ => none) 7 (some 0)) 8 (some 1)) 8 (some 0)⟩ 8 := by
      rintro ⟨index, hindex⟩
      have := List.mem_of_getElem? hindex
      simp at this
    refine ⟨_, rfl, hgone, rfl, fun hagree => ?_⟩
    exact absurd ((hagree 8 (by decide)).2.mpr hgone) (by decide)
  · have hgone : ¬ Remap.Holds ⟨[0, 9], Function.update (Function.update
        (fun _ => none) 8 (some 1)) 9 (some 1)⟩ 8 := by
      rintro ⟨index, hindex⟩
      have := List.mem_of_getElem? hindex
      simp at this
    refine ⟨_, rfl, hgone, rfl, fun hagree => ?_⟩
    exact absurd ((hagree 8 (by decide)).2.mpr hgone) (by decide)

end ReplayRemap
end Lavatube
