import Mathlib.Tactic
import Lavatube.Lib.Transition

/-!
# The virtual swapchain

With a virtual swapchain the application renders to images of the replayer, one for each
image it had in the capture.  A captured acquire acquires an image of the real swapchain, and
the replayer notes it with the stored index, the one the application got.  A captured present
copies the virtual image to the real image that is noted with its index, and presents the
real one.  A swapchain for which the present is not successful is made anew, and the present
is issued again.

* `Action`, `step` — captured acquires and presents, with what the driver returns.
* `TrackedSwapchain.held`, `TrackedSwapchain.acquired` — the images the application and the
  replayer have acquired; neither is kept by the replayer.
* `State.issued` — the presents that were issued to the driver.
* `presents_acquired_iff` — when all of them present acquired images of the right index.
-/

namespace Lavatube
namespace VirtualSwapchain

open Transition

/-! ## The replayer -/

/-- `trackedswapchain_replay`.  `swapchainImages` is the number of real images. -/
structure TrackedSwapchain where
  swapchainImages : Nat
  nextSwapchainImage : Nat := 0
  nextStoredImage : Nat := 0
  acquiredRealImageIndices : List (Option Nat)
  acquired : List Nat := []
  held : List Nat := []
deriving DecidableEq, Repr

/-- One swapchain of a `VkPresentInfoKHR`, with the index the application presented in the
capture. -/
structure PresentInfo where
  swapchain : Nat
  imageIndex : Nat
  captured : Nat
deriving DecidableEq, Repr

/-- What `replay_pre_vkQueuePresentKHR` makes of it: the index that replaces `imageIndex`,
and the virtual image that is copied. -/
structure Copied where
  swapchain : Nat
  imageIndex : Nat
  captured : Nat
  virtualImage : Nat
deriving DecidableEq, Repr

/-- One swapchain of a present that is issued to the driver, with the number of real images
and whether the image is acquired. -/
structure Issued where
  copied : Copied
  swapchainImages : Nat
  acquired : Bool
deriving DecidableEq, Repr

/-- All swapchains. -/
structure State where
  swapchains : Nat → TrackedSwapchain
  issued : List Issued := []

/-- Behind the creation of the swapchains, with their numbers of real and of stored
images. -/
def initial (realImages storedImages : Nat → Nat) : State where
  swapchains i :=
    { swapchainImages := realImages i
      acquiredRealImageIndices := List.replicate (storedImages i) none }

/-- One swapchain changed. -/
def State.setSwapchain (s : State) (i : Nat) (data : TrackedSwapchain) : State :=
  { s with swapchains := Function.update s.swapchains i data }

/-- `replay_callback_vkAcquireNextImageKHR`, behind a driver that has acquired the image
`real` of the swapchain and the loaded index of the capture. -/
def replayCallbackAcquireNextImage (s : State) (i stored real : Nat) : State :=
  let data := s.swapchains i
  s.setSwapchain i { data with
    nextSwapchainImage := real
    nextStoredImage := stored
    acquiredRealImageIndices := data.acquiredRealImageIndices.set stored (some real)
    acquired := data.acquired ++ [real]
    held := data.held ++ [stored] }

/-- `acquired_real_image_indices`, with the assertions in front of its use. -/
def realImage (s : State) (i stored : Nat) : Option Nat :=
  ((s.swapchains i).acquiredRealImageIndices[stored]?).join

/-- The body of the loop in `replay_pre_vkQueuePresentKHR`. -/
def copyImage (s : State) (info : PresentInfo) : Option Copied :=
  (realImage s info.swapchain info.imageIndex).map fun real =>
    ⟨info.swapchain, real, info.captured, info.imageIndex⟩

/-- `replay_pre_vkQueuePresentKHR`. -/
def replayPreQueuePresent (s : State) (infos : List PresentInfo) : Option (List Copied) :=
  infos.mapM (copyImage s)

/-- `vkQueuePresentKHR` of the driver.  Whatever it returns, the images are no longer
acquired. -/
def queuePresent (s : State) (copies : List Copied) : State where
  swapchains i :=
    { s.swapchains i with
      acquired := (s.swapchains i).acquired.filter fun real =>
        !copies.any fun copy => copy.swapchain = i && copy.imageIndex = real }
  issued := s.issued ++ copies.map fun copy =>
    ⟨copy, (s.swapchains copy.swapchain).swapchainImages,
      (s.swapchains copy.swapchain).acquired.contains copy.imageIndex⟩

/-- `remake_swapchain`, for which the driver makes `images` new images. -/
def remakeSwapchain (s : State) (i images : Nat) : State :=
  s.setSwapchain i { s.swapchains i with swapchainImages := images, acquired := [] }

/-- The application has presented its images. -/
def release (s : State) (infos : List PresentInfo) : State :=
  { s with
    swapchains := fun i =>
      { s.swapchains i with
        held := (s.swapchains i).held.filter fun stored =>
          !infos.any fun info => info.swapchain = i && info.imageIndex = stored } }

/-- What the driver returns for a swapchain in `pResults`. -/
inductive PresentResult where
  | success
  | suboptimal
  | outOfDate
deriving DecidableEq, Repr

/-- A captured image to present, with the result for its swapchain and the number of images
the driver makes if the swapchain is made anew. -/
structure Presented where
  swapchain : Nat
  imageIndex : Nat
  result : PresentResult
  newImages : Nat
deriving DecidableEq, Repr

/-- The captured calls. -/
inductive Action where
  | acquire (swapchain stored real : Nat)
  | skippedAcquire (swapchain stored : Nat)
  | present (images : List Presented)
deriving DecidableEq, Repr

/-- What a captured present loads. -/
def Presented.info (image : Presented) : PresentInfo :=
  ⟨image.swapchain, image.imageIndex, image.imageIndex⟩

/-- What the reissued present is made of, in `replay_callback_vkQueuePresentKHR`. -/
def Copied.info (copy : Copied) : PresentInfo :=
  ⟨copy.swapchain, copy.imageIndex, copy.captured⟩

/-- The swapchains for which the present was not successful. -/
def failures (images : List Presented) (copies : List Copied) : List (Presented × Copied) :=
  (images.zip copies).filter fun pair => pair.1.result ≠ .success

/-- `replay_callback_vkQueuePresentKHR`, behind the first present. -/
def replayCallbackQueuePresent (s : State) (images : List Presented) (copies : List Copied) :
    Option State :=
  let failed := failures images copies
  if failed = [] then some s
  else
    let remade := failed.foldl
      (fun s pair => remakeSwapchain s pair.2.swapchain pair.1.newImages) s
    (replayPreQueuePresent remade (failed.map fun pair => pair.2.info)).map
      (queuePresent remade)

/-- One captured call.  The application acquires images that it does not hold, and presents
images that it holds, at most one of each swapchain; the driver acquires images that are not
acquired. -/
def step (s : State) : Action → Option State
  | .acquire i stored real =>
      let data := s.swapchains i
      if stored < data.acquiredRealImageIndices.length ∧ stored ∉ data.held ∧
          real < data.swapchainImages ∧ real ∉ data.acquired then
        some (replayCallbackAcquireNextImage s i stored real)
      else none
  | .skippedAcquire i stored =>
      some (s.setSwapchain i { s.swapchains i with nextStoredImage := stored })
  | .present images =>
      if images ≠ [] ∧ (images.map (·.swapchain)).Nodup ∧
          ∀ image ∈ images, image.imageIndex ∈ (s.swapchains image.swapchain).held then
        (replayPreQueuePresent s (images.map Presented.info)).bind fun copies =>
          replayCallbackQueuePresent
            (queuePresent (release s (images.map Presented.info)) copies) images copies
      else none

/-! ## Presents of acquired images -/

/-- The image is one of the real swapchain, it is acquired, and the virtual image copied to
it is the one the application presented. -/
def Issued.Good (issue : Issued) : Prop :=
  issue.copied.imageIndex < issue.swapchainImages ∧ issue.acquired = true ∧
    issue.copied.virtualImage = issue.copied.captured

/-- Every result of the driver is `VK_SUCCESS`. -/
def Successful : Action → Prop
  | .present images => ∀ image ∈ images, image.result = .success
  | _ => True

/-- What the application holds is acquired, each image for itself. -/
structure Inv (s : State) : Prop where
  noted : ∀ i, ∀ stored ∈ (s.swapchains i).held, ∃ real, realImage s i stored = some real ∧
    real ∈ (s.swapchains i).acquired ∧ real < (s.swapchains i).swapchainImages
  injective : ∀ i, ∀ stored ∈ (s.swapchains i).held, ∀ other ∈ (s.swapchains i).held,
    realImage s i stored = realImage s i other → stored = other
  good : ∀ issue ∈ s.issued, issue.Good

variable {s next : State} {a : Action} {i stored real : Nat}

theorem inv_initial (realImages storedImages : Nat → Nat) :
    Inv (initial realImages storedImages) := by
  constructor <;> simp [initial]

@[simp] theorem setSwapchain_self (data : TrackedSwapchain) :
    (s.setSwapchain i data).swapchains i = data := by
  simp [State.setSwapchain]

theorem setSwapchain_of_ne {j : Nat} (hne : j ≠ i) (data : TrackedSwapchain) :
    (s.setSwapchain i data).swapchains j = s.swapchains j := by
  simp [State.setSwapchain, hne]

/-- A captured acquire. -/
theorem Inv.acquire (hinv : Inv s)
    (hstored : stored < (s.swapchains i).acquiredRealImageIndices.length)
    (hheld : stored ∉ (s.swapchains i).held) (hreal : real < (s.swapchains i).swapchainImages)
    (hfree : real ∉ (s.swapchains i).acquired) :
    Inv (replayCallbackAcquireNextImage s i stored real) := by
  have hnew : realImage (replayCallbackAcquireNextImage s i stored real) i stored =
      some real := by
    simp [realImage, replayCallbackAcquireNextImage, hstored]
  have hold : ∀ other, other ≠ stored →
      realImage (replayCallbackAcquireNextImage s i stored real) i other =
        realImage s i other := by
    intro other hne
    simp [realImage, replayCallbackAcquireNextImage, List.getElem?_set_ne (Ne.symm hne)]
  have hothers : ∀ j, j ≠ i →
      (replayCallbackAcquireNextImage s i stored real).swapchains j = s.swapchains j :=
    fun j hne => setSwapchain_of_ne hne _
  have hmem : ∀ other, other ∈
      ((replayCallbackAcquireNextImage s i stored real).swapchains i).held →
      other ∈ (s.swapchains i).held ∧ other ≠ stored ∨ other = stored := by
    intro other hother
    simp only [replayCallbackAcquireNextImage, setSwapchain_self, List.mem_append,
      List.mem_singleton] at hother
    rcases hother with hother | rfl
    · exact Or.inl ⟨hother, fun h => hheld (h ▸ hother)⟩
    · exact Or.inr rfl
  constructor
  · intro j other hother
    by_cases hj : j = i
    · subst hj
      rcases hmem other hother with ⟨hheldOther, hne⟩ | rfl
      · obtain ⟨r, hr, hacquired, hlt⟩ := hinv.noted j other hheldOther
        refine ⟨r, (hold other hne).trans hr, ?_, ?_⟩
        · simp [replayCallbackAcquireNextImage, hacquired]
        · simpa [replayCallbackAcquireNextImage] using hlt
      · refine ⟨real, hnew, ?_, ?_⟩
        · simp [replayCallbackAcquireNextImage]
        · simpa [replayCallbackAcquireNextImage] using hreal
    · have hsame := hothers j hj
      rw [hsame] at hother ⊢
      obtain ⟨r, hr, hrest⟩ := hinv.noted j other hother
      exact ⟨r, by rwa [realImage, hsame], hrest⟩
  · intro j first hfirst second hsecond heq
    by_cases hj : j = i
    · subst hj
      -- the new image differs from the old ones, because it was not acquired
      have hdiffer : ∀ other ∈ (s.swapchains j).held, realImage s j other ≠ some real := by
        intro other hother hsame
        obtain ⟨r, hr, hacquired, -⟩ := hinv.noted j other hother
        rw [hr] at hsame
        exact hfree (Option.some.inj hsame ▸ hacquired)
      rcases hmem first hfirst with ⟨hheldFirst, hneFirst⟩ | rfl
      · rcases hmem second hsecond with ⟨hheldSecond, hneSecond⟩ | rfl
        · rw [hold first hneFirst, hold second hneSecond] at heq
          exact hinv.injective j first hheldFirst second hheldSecond heq
        · rw [hold first hneFirst, hnew] at heq
          exact absurd heq (hdiffer first hheldFirst)
      · rcases hmem second hsecond with ⟨hheldSecond, hneSecond⟩ | rfl
        · rw [hold second hneSecond, hnew] at heq
          exact absurd heq.symm (hdiffer second hheldSecond)
        · rfl
    · have hsame := hothers j hj
      rw [hsame] at hfirst hsecond
      simp only [realImage, hsame] at heq
      exact hinv.injective j first hfirst second hsecond heq
  · exact hinv.good

/-- What `replay_pre_vkQueuePresentKHR` makes of each swapchain. -/
theorem replayPreQueuePresent_forall {infos : List PresentInfo} {copies : List Copied}
    (hpre : replayPreQueuePresent s infos = some copies) :
    List.Forall₂ (fun info copy => copyImage s info = some copy) infos copies := by
  induction infos generalizing copies with
  | nil =>
      cases hpre
      exact .nil
  | cons info infos ih =>
      simp only [replayPreQueuePresent, List.mapM_cons, Option.pure_def, Option.bind_eq_bind,
        Option.bind_eq_some_iff, Option.some.injEq] at hpre
      obtain ⟨copy, hcopy, rest, hrest, rfl⟩ := hpre
      exact .cons hcopy (ih hrest)

theorem copyImage_eq_some {info : PresentInfo} {copy : Copied}
    (hcopy : copyImage s info = some copy) :
    realImage s info.swapchain info.imageIndex = some copy.imageIndex ∧
      copy.swapchain = info.swapchain ∧ copy.captured = info.captured ∧
      copy.virtualImage = info.imageIndex := by
  unfold copyImage at hcopy
  obtain ⟨real, hreal, rfl⟩ := Option.map_eq_some_iff.mp hcopy
  exact ⟨hreal, rfl, rfl, rfl⟩

/-- The captured image behind a copy of the first present. -/
theorem exists_image {images : List Presented} {copies : List Copied}
    (hpre : replayPreQueuePresent s (images.map Presented.info) = some copies)
    {copy : Copied} (hcopy : copy ∈ copies) :
    ∃ image ∈ images,
      realImage s image.swapchain image.imageIndex = some copy.imageIndex ∧
      copy.swapchain = image.swapchain ∧ copy.captured = image.imageIndex ∧
      copy.virtualImage = image.imageIndex := by
  obtain ⟨hlength, hall⟩ := List.forall₂_iff_get.mp (replayPreQueuePresent_forall hpre)
  obtain ⟨k, hk, rfl⟩ := List.getElem_of_mem hcopy
  have hmem := List.get_mem (images.map Presented.info) ⟨k, by omega⟩
  obtain ⟨image, himage, hinfo⟩ := List.mem_map.mp hmem
  have hcopyImage := hall k (by omega) hk
  rw [← hinfo] at hcopyImage
  exact ⟨image, himage, copyImage_eq_some hcopyImage⟩

/-- **The first present is good**, and leaves what the application holds acquired. -/
theorem Inv.present (hinv : Inv s) {images : List Presented} {copies : List Copied}
    (hheld : ∀ image ∈ images, image.imageIndex ∈ (s.swapchains image.swapchain).held)
    (hpre : replayPreQueuePresent s (images.map Presented.info) = some copies) :
    Inv (queuePresent (release s (images.map Presented.info)) copies) := by
  have hreal : ∀ j k, realImage (queuePresent (release s (images.map Presented.info)) copies)
      j k = realImage s j k := fun _ _ => rfl
  constructor
  · intro j other hother
    simp only [queuePresent, release, List.mem_filter] at hother
    obtain ⟨real, hnoted, hacquired, hlt⟩ := hinv.noted j other hother.1
    refine ⟨real, (hreal j other).trans hnoted, ?_, hlt⟩
    simp only [queuePresent, release, List.mem_filter, Bool.not_eq_true', List.any_eq_false,
      Bool.and_eq_true, decide_eq_true_eq]
    refine ⟨hacquired, fun copy hcopy hsame => ?_⟩
    obtain ⟨image, himage, hnotedImage, hswapchain, -, -⟩ := exists_image hpre hcopy
    rw [hsame.1] at hswapchain
    rw [hsame.2, ← hswapchain] at hnotedImage
    have hheldImage := hheld image himage
    rw [← hswapchain] at hheldImage
    have hindex := hinv.injective j other hother.1 image.imageIndex hheldImage
      (hnoted.trans hnotedImage.symm)
    have hreleased := hother.2
    simp only [Bool.not_eq_true', List.any_eq_false, Bool.and_eq_true, decide_eq_true_eq]
      at hreleased
    exact hreleased image.info (List.mem_map.mpr ⟨image, himage, rfl⟩)
      ⟨hswapchain.symm, hindex.symm⟩
  · intro j first hfirst second hsecond heq
    simp only [queuePresent, release, List.mem_filter] at hfirst hsecond
    exact hinv.injective j first hfirst.1 second hsecond.1 heq
  · intro issue hissue
    rcases List.mem_append.mp hissue with hold | hnew
    · exact hinv.good issue hold
    · obtain ⟨copy, hcopy, rfl⟩ := List.mem_map.mp hnew
      obtain ⟨image, himage, hnoted, hswapchain, hcaptured, hvirtual⟩ := exists_image hpre hcopy
      obtain ⟨real, hsame, hacquired, hlt⟩ :=
        hinv.noted image.swapchain image.imageIndex (hheld image himage)
      obtain rfl := Option.some.inj (hsame.symm.trans hnoted)
      rw [← hswapchain] at hacquired hlt
      exact ⟨hlt, by simpa [release] using hacquired, hvirtual.trans hcaptured.symm⟩

/-- A successful present ends with the first issue. -/
theorem failures_eq_nil {images : List Presented} {copies : List Copied}
    (hlength : images.length = copies.length) :
    failures images copies = [] ↔ ∀ image ∈ images, image.result = .success := by
  unfold failures
  rw [List.filter_eq_nil_iff]
  constructor
  · intro hall image himage
    have hmem : image ∈ (images.zip copies).map Prod.fst := by
      rwa [List.map_fst_zip (le_of_eq hlength)]
    obtain ⟨pair, hpair, rfl⟩ := List.mem_map.mp hmem
    simpa using hall pair hpair
  · intro hall pair hpair
    have := hall pair.1 (List.of_mem_zip hpair).1
    simpa using this

theorem remade_acquired (s : State) (pairs : List (Presented × Copied))
    {pair : Presented × Copied}
    (hpair : pair ∈ pairs ∨ (s.swapchains pair.2.swapchain).acquired = []) :
    ((pairs.foldl (fun s pair => remakeSwapchain s pair.2.swapchain pair.1.newImages)
      s).swapchains pair.2.swapchain).acquired = [] := by
  induction pairs generalizing s with
  | nil => simpa using hpair
  | cons first pairs ih =>
      apply ih
      by_cases hsame : pair.2.swapchain = first.2.swapchain
      · right
        rw [hsame]
        simp [remakeSwapchain]
      · rcases hpair with hmem | hempty
        · rcases List.mem_cons.mp hmem with rfl | hrest
          · exact absurd rfl hsame
          · exact Or.inl hrest
        · right
          show ((s.setSwapchain first.2.swapchain _).swapchains pair.2.swapchain).acquired = []
          rw [setSwapchain_of_ne hsame]
          exact hempty

/-- **A reissued present is never good**: nothing is acquired from a swapchain that was just
made. -/
theorem reissue_not_good {images : List Presented} {copies : List Copied}
    (hfailed : failures images copies ≠ [])
    (hstep : replayCallbackQueuePresent s images copies = some next) :
    ∃ issue ∈ next.issued, ¬ issue.Good := by
  unfold replayCallbackQueuePresent at hstep
  rw [if_neg hfailed] at hstep
  obtain ⟨again, hpre, rfl⟩ := Option.map_eq_some_iff.mp hstep
  obtain ⟨pair, pairs, hpairs⟩ := List.exists_cons_of_ne_nil hfailed
  have hforall := replayPreQueuePresent_forall hpre
  rw [hpairs, List.map_cons] at hforall
  cases hforall with
  | @cons _ copy _ rest hcopy _ =>
      have hacquired := remade_acquired s (failures images copies)
        (Or.inl (hpairs ▸ List.mem_cons_self (a := pair) (l := pairs)))
      refine ⟨_, List.mem_append_right _ (List.mem_map.mpr
        ⟨copy, List.mem_cons_self .., rfl⟩), fun hgood => ?_⟩
      have hflag := hgood.2.1
      have hswapchain : copy.swapchain = pair.2.swapchain := (copyImage_eq_some hcopy).2.1
      simp only [hswapchain, hacquired, List.contains_nil] at hflag
      cases hflag

/-! ## Whole runs -/

theorem present_eq_some {images : List Presented}
    (hstep : step s (.present images) = some next) :
    (∀ image ∈ images, image.imageIndex ∈ (s.swapchains image.swapchain).held) ∧
      ∃ copies, replayPreQueuePresent s (images.map Presented.info) = some copies ∧
        replayCallbackQueuePresent
          (queuePresent (release s (images.map Presented.info)) copies) images copies =
            some next := by
  simp only [step, Option.ite_none_right_eq_some] at hstep
  obtain ⟨⟨-, -, hheld⟩, hstep⟩ := hstep
  obtain ⟨copies, hpre, hcallback⟩ := Option.bind_eq_some_iff.mp hstep
  exact ⟨hheld, copies, hpre, hcallback⟩

theorem copies_length {images : List Presented} {copies : List Copied}
    (hpre : replayPreQueuePresent s (images.map Presented.info) = some copies) :
    images.length = copies.length := by
  have hlength := (replayPreQueuePresent_forall hpre).length_eq
  rwa [List.length_map] at hlength

/-- A call that is not refused keeps the invariant, if its results are successful. -/
theorem Inv.step (hinv : Inv s) (hsuccessful : Successful a) (hstep : step s a = some next) :
    Inv next := by
  cases a with
  | acquire i stored real =>
      simp only [VirtualSwapchain.step, Option.ite_none_right_eq_some, Option.some.injEq]
        at hstep
      obtain ⟨⟨hstored, hheld, hreal, hfree⟩, rfl⟩ := hstep
      exact hinv.acquire hstored hheld hreal hfree
  | skippedAcquire i stored =>
      cases hstep
      have hsame : ∀ j, ((s.setSwapchain i
          { s.swapchains i with nextStoredImage := stored }).swapchains j).held =
            (s.swapchains j).held ∧
          ((s.setSwapchain i
          { s.swapchains i with nextStoredImage := stored }).swapchains j).acquired =
            (s.swapchains j).acquired ∧
          ((s.setSwapchain i
          { s.swapchains i with nextStoredImage := stored }).swapchains j).swapchainImages =
            (s.swapchains j).swapchainImages ∧
          ∀ k, realImage (s.setSwapchain i
          { s.swapchains i with nextStoredImage := stored }) j k = realImage s j k := by
        intro j
        by_cases hj : j = i
        · subst hj
          simp [realImage]
        · simp [realImage, setSwapchain_of_ne hj]
      constructor
      · intro j other hother
        rw [(hsame j).1] at hother
        rw [(hsame j).2.1, (hsame j).2.2.1, (hsame j).2.2.2]
        exact hinv.noted j other hother
      · intro j first hfirst second hsecond
        rw [(hsame j).1] at hfirst hsecond
        rw [(hsame j).2.2.2, (hsame j).2.2.2]
        exact hinv.injective j first hfirst second hsecond
      · exact hinv.good
  | present images =>
      obtain ⟨hheld, copies, hpre, hcallback⟩ := present_eq_some hstep
      have hnone := (failures_eq_nil (copies_length hpre)).mpr hsuccessful
      rw [replayCallbackQueuePresent, if_pos hnone] at hcallback
      exact Option.some.inj hcallback ▸ hinv.present hheld hpre

/-- What is issued stays in the record. -/
theorem issued_subset (hstep : step s a = some next) : s.issued ⊆ next.issued := by
  cases a with
  | acquire i stored real =>
      simp only [step, Option.ite_none_right_eq_some, Option.some.injEq] at hstep
      obtain ⟨-, rfl⟩ := hstep
      exact List.Subset.refl _
  | skippedAcquire i stored =>
      cases hstep
      exact List.Subset.refl _
  | present images =>
      obtain ⟨-, copies, -, hcallback⟩ := present_eq_some hstep
      have hfirst : s.issued ⊆
          (queuePresent (release s (images.map Presented.info)) copies).issued :=
        List.subset_append_left _ _
      simp only [replayCallbackQueuePresent] at hcallback
      split at hcallback
      · exact Option.some.inj hcallback ▸ hfirst
      · obtain ⟨again, -, rfl⟩ := Option.map_eq_some_iff.mp hcallback
        have hremade : ∀ (pairs : List (Presented × Copied)) (t : State),
            (pairs.foldl (fun s pair => remakeSwapchain s pair.2.swapchain pair.1.newImages)
              t).issued = t.issued := by
          intro pairs
          induction pairs with
          | nil => exact fun _ => rfl
          | cons pair pairs ih => exact fun t => ih _
        intro issue hissue
        apply List.mem_append_left
        rw [hremade]
        exact hfirst hissue

/-- A present that is not successful is issued again, and not well. -/
theorem not_good_of_not_successful (hstep : step s a = some next) (hfails : ¬ Successful a) :
    ∃ issue ∈ next.issued, ¬ issue.Good := by
  cases a with
  | acquire i stored real => exact absurd trivial hfails
  | skippedAcquire i stored => exact absurd trivial hfails
  | present images =>
      obtain ⟨-, copies, hpre, hcallback⟩ := present_eq_some hstep
      apply reissue_not_good _ hcallback
      intro hnone
      exact hfails ((failures_eq_nil (copies_length hpre)).mp hnone)

/-- **Presents of acquired images.**  All presents that are issued in a run are good exactly
when the driver returns `VK_SUCCESS` for all of them. -/
theorem presents_acquired_iff {realImages storedImages : Nat → Nat} {run : List Action}
    {final : State} (hexec : exec step (initial realImages storedImages) run = some final) :
    (∀ issue ∈ final.issued, issue.Good) ↔ ∀ a ∈ run, Successful a := by
  constructor
  · intro hgood a ha
    by_contra hfails
    obtain ⟨before, after, rfl⟩ := List.append_of_mem ha
    obtain ⟨middle, -, hrest⟩ := exec_append_eq_some_iff.mp hexec
    obtain ⟨next, hstep, hlater⟩ := exec_cons_eq_some_iff.mp hrest
    obtain ⟨issue, hissue, hbad⟩ := not_good_of_not_successful hstep hfails
    have hkept := exec_invariant_of_step
      (fun s a next (hmem : issue ∈ s.issued) hstep => issued_subset hstep hmem) hissue hlater
    exact hbad (hgood issue hkept)
  · intro hsuccessful
    have hinv := exec_invariant
      (fun s a next (hinv : Inv s) (hsuccessful : Successful a) hstep =>
        hinv.step hsuccessful hstep)
      (inv_initial realImages storedImages) (along_of_forall hsuccessful) hexec
    exact hinv.good

instance : ∀ a, Decidable (Successful a)
  | .present images =>
      inferInstanceAs (Decidable (∀ image ∈ images, image.result = .success))
  | .acquire .. | .skippedAcquire .. => .isTrue trivial

/-- Two swapchains; the images of the first one are acquired in another order than in the
capture, and presented together with one of the second swapchain. -/
def successfulRun : List Action :=
  [.acquire 0 2 0, .acquire 0 0 1, .skippedAcquire 1 7, .acquire 1 1 3,
    .present [⟨0, 2, .success, 0⟩, ⟨1, 1, .success, 0⟩], .present [⟨0, 0, .success, 0⟩]]

theorem presents_acquired_iff_successfulRun :
    ∃ final, exec step (initial (fun _ => 4) fun _ => 3) successfulRun = some final ∧
      final.issued.length = 3 ∧ ∀ issue ∈ final.issued, issue.Good := by
  have hrun : exec step (initial (fun _ => 4) fun _ => 3) successfulRun = some _ := rfl
  exact ⟨_, hrun, rfl, (presents_acquired_iff hrun).mpr (by decide)⟩

/-- Two images are acquired, and the present of the first one is out of date. -/
def outOfDateRun : List Action :=
  [.acquire 0 2 0, .acquire 0 0 1, .present [⟨0, 2, .outOfDate, 3⟩]]

/-- The present is issued again with the virtual image 0 instead of 2, to image 1 of the new
swapchain, which nobody has acquired. -/
theorem reissue_presents_other_image :
    ∃ final, exec step (initial (fun _ => 3) fun _ => 3) outOfDateRun = some final ∧
      final.issued = [⟨⟨0, 0, 2, 2⟩, 3, true⟩, ⟨⟨0, 1, 2, 0⟩, 3, false⟩] ∧
      ¬ ∀ issue ∈ final.issued, issue.Good := by
  refine ⟨_, rfl, rfl, fun hgood => ?_⟩
  have hlast := (hgood ⟨⟨0, 1, 2, 0⟩, 3, false⟩ (by decide)).2.1
  cases hlast

end VirtualSwapchain
end Lavatube
