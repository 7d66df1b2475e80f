import Lavatube.Lib.Transition
import Lavatube.RangeTracking

/-!
# Touched objects

Command buffers and descriptor sets keep, for every object that they read, the bytes that may have
to be updated before the reading: a map from objects to exposures.  Objects whose memory the host
does not write are left out.

* `touch`, `touchMerge` — the two ways in which a map grows.
* `Sound` — what every map keeps: its ranges are in order, and inside of accessible objects.
* `touchAll_spec`, `touchMerge_spec` — they are unions, and keep maps sound.
-/

namespace Lavatube
namespace TouchedMap

open IntervalList RangeTracking Transition

/-- `VK_WHOLE_SIZE`. -/
def wholeSize : Nat := 2 ^ 64 - 1

/-- The part of a `trackedobject` that the maps read. -/
structure TrackedObject where
  size : Nat
  accessible : Bool
  size_lt : size < 2 ^ 64

/-- `std::unordered_map<trackedobject*, exposure>`. -/
abbrev Touched := Nat → Option Exposure

/-- The arguments of a call of `touch`. -/
structure Touch where
  data : Nat
  offset : Nat
  size : Nat
deriving DecidableEq, Repr

variable (objects : Nat → TrackedObject)

/-- The size that is touched: what is left of the object for `VK_WHOLE_SIZE`. -/
def Touch.length (t : Touch) : Nat :=
  if t.size = wholeSize then ((objects t.data).size + 2 ^ 64 - t.offset) % 2 ^ 64 else t.size

/-- `trackedcmdbuffer_trace::touch` and `trackeddescriptorset_trace::touch`; `none` is a failed
assertion. -/
def touch (touched : Touched) (t : Touch) : Option Touched :=
  if (objects t.data).accessible = false then some touched
  else
    (((touched t.data).getD .empty).addOs t.offset (t.length objects)).map fun exposure =>
      Function.update touched t.data (some exposure)

/-- Touches one after the other. -/
def touchAll (touched : Touched) (touches : List Touch) : Option Touched :=
  exec (touch objects) touched touches

/-- The ranges of one exposure added to another one. -/
def mergeExposure (exposure other : Exposure) : Exposure :=
  other.list.foldl (fun exposure r => exposure.addRange r.first r.last) exposure

/-- `touch_merge`, and `merge_descriptor_touched`. -/
def touchMerge (touched other : Touched) : Touched := fun data =>
  match other data with
  | none => touched data
  | some exposure =>
      match touched data with
      | some mine => some (mergeExposure mine exposure)
      | none => some exposure

/-! ## The bytes of a map -/

/-- Byte `x` of the object is touched. -/
def Mem (touched : Touched) (data x : Nat) : Prop :=
  ∃ exposure, touched data = some exposure ∧ exposure.Mem x

/-- The byte is one of the touched range. -/
def Touch.Has (t : Touch) (data x : Nat) : Prop :=
  t.data = data ∧ t.offset ≤ x ∧ x < t.offset + t.length objects

/-- The touched range is inside of the object. -/
def Touch.Fits (t : Touch) : Prop :=
  t.offset + t.length objects ≤ (objects t.data).size

/-- The ranges of every object are in order and inside of it, and it is accessible. -/
structure Sound (touched : Touched) : Prop where
  wf : ∀ data exposure, touched data = some exposure → exposure.WF
  accessible : ∀ data exposure, touched data = some exposure →
    (objects data).accessible = true
  inside : ∀ data x, Mem touched data x → x < (objects data).size

variable {objects} {touched next other : Touched} {t : Touch} {touches : List Touch}
variable {data x : Nat}

@[simp] theorem not_mem_empty (data x : Nat) : ¬ Mem (fun _ => none) data x := by
  rintro ⟨exposure, hnone, -⟩
  cases hnone

theorem sound_empty : Sound objects fun _ => none :=
  ⟨nofun, nofun, fun data x h => absurd h (not_mem_empty data x)⟩

theorem mem_update_iff {exposure : Exposure} {changed : Nat} :
    Mem (Function.update touched changed (some exposure)) data x ↔
      (data = changed ∧ exposure.Mem x) ∨ (data ≠ changed ∧ Mem touched data x) := by
  unfold Mem
  by_cases hdata : data = changed
  · subst hdata
    simp
  · simp [hdata]

/-- The rest of an object behind an offset, computed in 64 bits. -/
theorem TrackedObject.rest_eq {object : TrackedObject} {offset : Nat}
    (hoffset : offset ≤ object.size) :
    (object.size + 2 ^ 64 - offset) % 2 ^ 64 = object.size - offset := by
  have hlt := object.size_lt
  rw [show object.size + 2 ^ 64 - offset = object.size - offset + 2 ^ 64 by omega,
    Nat.add_mod_right, Nat.mod_eq_of_lt (by omega)]

/-- The part of `VK_WHOLE_SIZE` that is left. -/
theorem Touch.length_of_whole (hsize : t.size = wholeSize)
    (hoffset : t.offset ≤ (objects t.data).size) :
    t.length objects = (objects t.data).size - t.offset := by
  unfold Touch.length
  rw [if_pos hsize, TrackedObject.rest_eq hoffset]

theorem Touch.length_of_ne (hsize : t.size ≠ wholeSize) : t.length objects = t.size :=
  if_neg hsize

/-- A touch inside of the object passes, whether or not its size is `VK_WHOLE_SIZE`. -/
theorem Touch.length_of_fits (hfits : t.offset + t.size ≤ (objects t.data).size) :
    t.length objects = t.size := by
  by_cases hsize : t.size = wholeSize
  · rw [t.length_of_whole hsize (by omega)]
    have hlt := (objects t.data).size_lt
    unfold wholeSize at hsize
    omega
  · exact t.length_of_ne hsize

theorem Touch.fits_of_le (hfits : t.offset + t.size ≤ (objects t.data).size) : t.Fits objects := by
  unfold Touch.Fits
  rwa [t.length_of_fits hfits]

theorem Touch.has_of_le (hfits : t.offset + t.size ≤ (objects t.data).size) (hdata : t.data = data)
    (hlow : t.offset ≤ x) (hhigh : x < t.offset + t.size) : t.Has objects data x :=
  ⟨hdata, hlow, by rwa [t.length_of_fits hfits]⟩

/-- **One touch** of a range inside of the object. -/
theorem touch_spec (hsound : Sound objects touched)
    (hfits : (objects t.data).accessible = true → t.Fits objects) :
    ∃ next, touch objects touched t = some next ∧ Sound objects next ∧
      ∀ data x, Mem next data x ↔
        Mem touched data x ∨ ((objects data).accessible = true ∧ t.Has objects data x) := by
  unfold touch
  split
  -- an object that the host cannot access is not recorded
  · case _ hout =>
      refine ⟨touched, rfl, hsound, fun data x => ?_⟩
      constructor
      · exact Or.inl
      · rintro (hmem | ⟨haccessible, rfl, -⟩)
        · exact hmem
        · rw [hout] at haccessible
          cases haccessible
  · case _ hin =>
      have haccessible : (objects t.data).accessible = true := by simpa using hin
      have hrange := hfits haccessible
      unfold Touch.Fits at hrange
      have hlt := (objects t.data).size_lt
      have hwf : ((touched t.data).getD .empty).WF := by
        cases htouched : touched t.data with
        | none => exact Exposure.wf_empty
        | some exposure => exact hsound.wf _ _ htouched
      -- no entry in the map is as good as an empty one
      have hold : ∀ x, ((touched t.data).getD .empty).Mem x ↔ Mem touched t.data x := by
        intro x
        unfold Mem
        cases htouched : touched t.data with
        | none => simp [Exposure.empty, Exposure.Mem, Covers]
        | some exposure => simp
      obtain ⟨exposure, hadd, hkeep, hadded⟩ :=
        Exposure.addOs_spec ((touched t.data).getD .empty) t.offset (t.length objects) hwf
          (by omega)
      -- only the entry of the object of the touch is replaced
      have hmem : ∀ data x, Mem (Function.update touched t.data (some exposure)) data x ↔
          Mem touched data x ∨ ((objects data).accessible = true ∧ t.Has objects data x) := by
        intro data x
        rw [mem_update_iff, hadded, hold]
        unfold Touch.Has
        by_cases hdata : data = t.data
        · subst hdata
          simp [haccessible]
        · simp [hdata, Ne.symm hdata]
      refine ⟨_, by rw [hadd]; rfl, ⟨fun data exposure' hexposure => ?_,
        fun data exposure' hexposure => ?_, fun data x hx => ?_⟩, hmem⟩
      · by_cases hdata : data = t.data
        · subst hdata
          rw [Function.update_self] at hexposure
          cases hexposure
          exact hkeep
        · rw [Function.update_of_ne hdata] at hexposure
          exact hsound.wf data exposure' hexposure
      · by_cases hdata : data = t.data
        · subst hdata
          exact haccessible
        · rw [Function.update_of_ne hdata] at hexposure
          exact hsound.accessible data exposure' hexposure
      · rcases (hmem data x).mp hx with hx | ⟨-, rfl, -, hx⟩
        · exact hsound.inside data x hx
        · omega

/-- **Touches one after the other** add all of their ranges. -/
theorem touchAll_spec (hsound : Sound objects touched)
    (hfits : ∀ t ∈ touches, (objects t.data).accessible = true → t.Fits objects) :
    ∃ next, touchAll objects touched touches = some next ∧ Sound objects next ∧
      ∀ data x, Mem next data x ↔ Mem touched data x ∨
        ((objects data).accessible = true ∧ ∃ t ∈ touches, t.Has objects data x) := by
  induction touches generalizing touched with
  | nil => exact ⟨touched, rfl, hsound, by simp⟩
  | cons t touches ih =>
      obtain ⟨middle, hstep, hmiddle, hone⟩ :=
        touch_spec hsound (hfits t List.mem_cons_self)
      obtain ⟨next, hrest, hnext, hall⟩ :=
        ih hmiddle fun other hother => hfits other (List.mem_cons_of_mem _ hother)
      refine ⟨next, exec_cons_eq_some_iff.mpr ⟨middle, hstep, hrest⟩, hnext, fun data x => ?_⟩
      rw [hall, hone, List.exists_mem_cons_iff]
      tauto

/-! ## Merging -/

/-- Adding the ranges of an exposure is union. -/
theorem mergeExposure_spec {exposure other : Exposure} (hwf : exposure.WF) (hother : other.WF) :
    (mergeExposure exposure other).WF ∧
      ∀ x, (mergeExposure exposure other).Mem x ↔ exposure.Mem x ∨ other.Mem x := by
  unfold mergeExposure
  simp only [← Exposure.covers_list other]
  have hvalid : ∀ r ∈ other.list, r.first ≤ r.last ∧ r.last ≤ uint64Max := hother.valid
  generalize other.list = ranges at hvalid
  induction ranges generalizing exposure with
  | nil => exact ⟨hwf, fun x => by simp [Covers]⟩
  | cons r ranges ih =>
      obtain ⟨hle, hlast⟩ := hvalid r List.mem_cons_self
      obtain ⟨hkeep, hadded⟩ := Exposure.addRange_spec exposure r.first r.last hwf hle hlast
      obtain ⟨hrest, hall⟩ := ih hkeep fun s hs => hvalid s (List.mem_cons_of_mem _ hs)
      refine ⟨hrest, fun x => ?_⟩
      rw [List.foldl_cons, hall, hadded, covers_cons]
      exact or_assoc

/-- **Merging is union.** -/
theorem touchMerge_spec (hsound : Sound objects touched) (hother : Sound objects other) :
    Sound objects (touchMerge touched other) ∧
      ∀ data x, Mem (touchMerge touched other) data x ↔ Mem touched data x ∨ Mem other data x := by
  have hmem : ∀ data x, Mem (touchMerge touched other) data x ↔
      Mem touched data x ∨ Mem other data x := by
    intro data x
    unfold Mem touchMerge
    -- an object that only one of the maps has keeps the exposure it has there
    cases hright : other data with
    | none => simp
    | some exposure =>
        cases hleft : touched data with
        | none => simp
        | some mine =>
            simpa using (mergeExposure_spec (hsound.wf _ _ hleft) (hother.wf _ _ hright)).2 x
  refine ⟨⟨fun data exposure hexposure => ?_, fun data exposure hexposure => ?_,
    fun data x hx => ?_⟩, hmem⟩
  · unfold touchMerge at hexposure
    cases hright : other data with
    | none =>
        rw [hright] at hexposure
        exact hsound.wf data exposure hexposure
    | some given =>
        cases hleft : touched data with
        | none =>
            simp only [hright, hleft, Option.some.injEq] at hexposure
            rw [← hexposure]
            exact hother.wf data given hright
        | some mine =>
            simp only [hright, hleft, Option.some.injEq] at hexposure
            rw [← hexposure]
            exact (mergeExposure_spec (hsound.wf _ _ hleft) (hother.wf _ _ hright)).1
  · unfold touchMerge at hexposure
    cases hright : other data with
    | none =>
        rw [hright] at hexposure
        exact hsound.accessible data exposure hexposure
    | some given => exact hother.accessible data given hright
  · rcases (hmem data x).mp hx with hx | hx
    · exact hsound.inside data x hx
    · exact hother.inside data x hx

end TouchedMap
end Lavatube
