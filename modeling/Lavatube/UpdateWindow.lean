import Lavatube.HostMemory

/-!
# What a submit reads through the map

At a submit `memory_update` compares the touched ranges of every object with the
clone, through the map of the application where it reaches far enough and else
through a map of its own.  This module follows the bytes that `write_out_object`
compares, copies and writes, and asks whether they lie in the map and in the clone.

* `Access` — the bytes of one `memcmp`, `memcpy` or 8-byte word.
* `findPatchStartAccesses`, `writePatchAccesses`, `writeOutObjectAccesses` — the accesses in
  the order in which the loops make them.
* `Inside` — every byte of the accesses is in the map and in the clone.
* `Reaches` — the condition on a submit: the map that is used reaches behind the last byte, and
  no due byte lies so far in its object that a 32-bit offset misses it.
* `submit_inside` — a submit that meets the condition stays inside.
* `submits_stay_inside` — the same for whole runs.
-/

namespace Lavatube
namespace UpdateWindow

open ByteMemory IntervalList RangeTracking Patch HostMemory Transition

/-- The bytes `[first, first + count)`. -/
structure Access where
  first : Nat
  count : Nat
  deriving DecidableEq, Repr

/-- The comparisons of a stride loop of `find_patch_start`. -/
def skipBlocksAccesses (orig chng : Memory) (block size : Nat) : Nat → Nat → List Access
  | 0, _ => []
  | rounds + 1, pos =>
      if size - pos ≥ block then
        ⟨pos, block⟩ ::
          (if same orig chng pos block then
            skipBlocksAccesses orig chng block size rounds (pos + block)
          else [])
      else []

/-- The comparisons of `find_patch_start`, with both pointers already advanced. -/
def scanStartAccesses (orig chng : Memory) (size : Nat) : List Access :=
  let head : List Access := if size ≥ 8 then [⟨0, 8⟩] else []
  if size ≥ 8 ∧ ¬ same orig chng 0 8 then head
  else
    let pos := if size ≥ 8 then 8 else 0
    let wide := skipBlocksAccesses orig chng 256 size size pos
    let pos := skipBlocks orig chng 256 size size pos
    let narrow := skipBlocksAccesses orig chng 8 size size pos
    let pos := skipBlocks orig chng 8 size size pos
    let tail : List Access := if size - pos ≥ 8 then [] else [⟨pos, size - pos⟩]
    head ++ wide ++ narrow ++ tail

/-- The accesses from another start. -/
def shiftAccesses (base : Nat) (accesses : List Access) : List Access :=
  accesses.map fun a => ⟨base + a.first, a.count⟩

/-- The comparisons of `find_patch_start`. -/
def findPatchStartAccesses (orig chng : Memory) (offset size : Nat) : List Access :=
  shiftAccesses offset (scanStartAccesses (shift orig offset) (shift chng offset) size)

/-- The words that the loop over differing blocks in `write_patch` compares and copies. -/
def copyDifferingAccesses (chng : Memory) : Nat → Memory → Nat → Nat → List Access
  | 0, _, _, _ => []
  | rounds + 1, orig, pos, left =>
      if left ≥ 8 then
        ⟨pos, 8⟩ ::
          (if same orig chng pos 8 then []
          else copyDifferingAccesses chng rounds (copy orig chng pos 8) (pos + 8) (left - 8))
      else []

/-- The accesses of the main loop of `write_patch`; the last one of a round is the copy of the
payload into the chunk. -/
def patchLoopAccesses (chng : Memory) : Nat → Memory → Nat → Nat → Nat → List Access
  | 0, _, _, _, _ => []
  | rounds + 1, orig, pos, offset, left =>
      if left = 0 then []
      else
        let identical := findPatchStart orig chng pos left
        let start := pos + identical
        let offset := (offset + identical) % 2 ^ 32
        let diff := copyDiffering chng left orig start 0 (left - identical)
        let tail := copyTail chng diff.1 diff.2.1 diff.2.2.1 diff.2.2.2
        let c := tail.2.1
        findPatchStartAccesses orig chng pos left ++
          copyDifferingAccesses chng left orig start (left - identical) ++
          (if diff.2.2.2 < 8 then [⟨diff.2.1, diff.2.2.2⟩] else []) ++
          (if c ≠ 0 then [⟨start, c⟩] else []) ++
          patchLoopAccesses chng rounds tail.1 diff.2.1 (if c ≠ 0 then 0 else offset) tail.2.2

/-- The accesses of `write_patch`, whose offset has 32 bits. -/
def writePatchAccesses (orig chng : Memory) (offset size : Nat) : List Access :=
  patchLoopAccesses chng size orig (offset % 2 ^ 32) (offset % 2 ^ 32) size

/-- The accesses of `write_out_object`, by position in the device memory: each of them is one to
the clone and one to the mapped memory. -/
def writeOutObjectAccesses (base : Nat) (clone changed : Memory) (offset size : Nat) :
    List Access :=
  let cloneptr := shift clone base
  let changedptr := shift changed base
  let patchStart := findPatchStart cloneptr changedptr offset size
  shiftAccesses base
    (findPatchStartAccesses cloneptr changedptr offset size ++
      if patchStart = size then []
      else writePatchAccesses cloneptr changedptr (offset + patchStart) (size - patchStart))

/-- The accesses of one round of the innermost loop of `memory_update`. -/
def updateRangeAccesses (isMapped : Bool) (changed : Memory) (object : TrackedObject)
    (progress : Progress) (r : Range) : List Access :=
  let first := (r.first + object.offset) % 2 ^ 64
  let last := (r.last + object.offset) % 2 ^ 64
  if last < object.offset + object.size then
    match progress.exposed.fetch first last isMapped with
    | none => []
    | some (v, _) =>
        if v.Valid then
          writeOutObjectAccesses object.offset progress.clone changed
            (v.first - object.offset) (v.last - v.first + 1)
        else []
  else []

/-! ## Where the accesses lie -/

/-- All accesses are between two positions. -/
def Between (low high : Nat) (accesses : List Access) : Prop :=
  ∀ a ∈ accesses, low ≤ a.first ∧ a.first + a.count ≤ high

section Between

variable {low high : Nat} {left right : List Access}

theorem between_nil : Between low high [] := fun _ h => absurd h List.not_mem_nil

theorem between_cons {a : Access} : Between low high (a :: right) ↔
    (low ≤ a.first ∧ a.first + a.count ≤ high) ∧ Between low high right :=
  List.forall_mem_cons

theorem between_append : Between low high (left ++ right) ↔
    Between low high left ∧ Between low high right :=
  List.forall_mem_append

theorem Between.mono {low' high' : Nat} (h : Between low high left) (hlow : low' ≤ low)
    (hhigh : high ≤ high') : Between low' high' left := fun a ha =>
  ⟨hlow.trans (h a ha).1, (h a ha).2.trans hhigh⟩

theorem Between.shift (h : Between low high left) (base : Nat) :
    Between (base + low) (base + high) (shiftAccesses base left) := by
  intro a ha
  obtain ⟨b, hb, rfl⟩ := List.mem_map.mp ha
  have := h b hb
  exact ⟨by simp only; omega, by simp only; omega⟩

theorem skipBlocksAccesses_between (orig chng : Memory) (block size rounds : Nat) {pos : Nat}
    (hlow : low ≤ pos) (hblock : 0 < block) :
    Between low size (skipBlocksAccesses orig chng block size rounds pos) := by
  induction rounds generalizing pos with
  | zero => exact between_nil
  | succ rounds ih =>
      unfold skipBlocksAccesses
      split_ifs with hroom hsame
      · exact between_cons.mpr ⟨⟨hlow, by simp only; omega⟩, ih (by omega)⟩
      · exact between_cons.mpr ⟨⟨hlow, by simp only; omega⟩, between_nil⟩
      · exact between_nil

theorem scanStartAccesses_between (orig chng : Memory) (size : Nat) :
    Between 0 size (scanStartAccesses orig chng size) := by
  have hhead : Between 0 size (if size ≥ 8 then [⟨0, 8⟩] else []) := by
    split_ifs with hsize
    · exact between_cons.mpr ⟨⟨le_rfl, by simp only; omega⟩, between_nil⟩
    · exact between_nil
  have hpos : (if size ≥ 8 then 8 else 0) ≤ size := by split_ifs <;> omega
  obtain ⟨-, hwide, -⟩ :=
    skipBlocks_spec orig chng 256 size size _ (by decide) hpos (by omega)
  obtain ⟨-, hnarrow, -⟩ := skipBlocks_spec orig chng 8 size size _ (by decide) hwide (by omega)
  unfold scanStartAccesses
  simp only
  generalize (if size ≥ 8 then [(⟨0, 8⟩ : Access)] else []) = head at hhead ⊢
  generalize (if size ≥ 8 then 8 else 0) = pos at hwide hnarrow ⊢
  by_cases hfirst : size ≥ 8 ∧ ¬ same orig chng 0 8 = true
  · rw [if_pos hfirst]
    exact hhead
  · rw [if_neg hfirst]
    refine between_append.mpr ⟨between_append.mpr ⟨between_append.mpr ⟨hhead, ?_⟩, ?_⟩, ?_⟩
    · exact skipBlocksAccesses_between _ _ _ _ _ (Nat.zero_le _) (by decide)
    · exact skipBlocksAccesses_between _ _ _ _ _ (Nat.zero_le _) (by decide)
    · split_ifs
      · exact between_nil
      · exact between_cons.mpr ⟨⟨Nat.zero_le _, by simp only; omega⟩, between_nil⟩

/-- `find_patch_start` stays in the window that it scans. -/
theorem findPatchStartAccesses_between (orig chng : Memory) (offset size : Nat) :
    Between offset (offset + size) (findPatchStartAccesses orig chng offset size) :=
  (scanStartAccesses_between _ _ size).shift offset

theorem copyDifferingAccesses_between (chng : Memory) (rounds : Nat) (orig : Memory)
    {pos count : Nat} (hlow : low ≤ pos) (hhigh : pos + count ≤ high) :
    Between low high (copyDifferingAccesses chng rounds orig pos count) := by
  induction rounds generalizing orig pos count with
  | zero => exact between_nil
  | succ rounds ih =>
      unfold copyDifferingAccesses
      split_ifs with hroom hsame
      · exact between_cons.mpr ⟨⟨hlow, by simp only; omega⟩, between_nil⟩
      · exact between_cons.mpr ⟨⟨hlow, by simp only; omega⟩, ih _ (by omega) (by omega)⟩
      · exact between_nil

/-- The position and the bytes left go together, and the counter does not run ahead. -/
theorem copyDiffering_bounds (chng : Memory) (rounds : Nat) (orig : Memory) (pos c count : Nat) :
    pos ≤ (copyDiffering chng rounds orig pos c count).2.1 ∧
      (copyDiffering chng rounds orig pos c count).2.1 +
        (copyDiffering chng rounds orig pos c count).2.2.2 = pos + count ∧
      (copyDiffering chng rounds orig pos c count).2.2.1 + pos ≤
        c + (copyDiffering chng rounds orig pos c count).2.1 := by
  induction rounds generalizing orig pos c count with
  | zero => exact ⟨le_rfl, rfl, le_rfl⟩
  | succ rounds ih =>
      unfold copyDiffering
      split_ifs with hdiffers
      · obtain ⟨hpos, hleft, hcount⟩ :=
          ih (copy orig chng pos 8) (pos + 8) ((c + 8) % 2 ^ 32) (count - 8)
        have hmod := Nat.mod_le (c + 8) (2 ^ 32)
        exact ⟨by omega, by omega, by omega⟩
      · exact ⟨le_rfl, rfl, le_rfl⟩

theorem patchLoopAccesses_between (chng : Memory) (rounds : Nat) {orig : Memory}
    {pos offset count : Nat} (hlow : low ≤ pos) (hhigh : pos + count ≤ high) :
    Between low high (patchLoopAccesses chng rounds orig pos offset count) := by
  induction rounds generalizing orig pos offset count with
  | zero => exact between_nil
  | succ rounds ih =>
      unfold patchLoopAccesses
      split_ifs with hzero
      · exact between_nil
      · simp only
        have hidentical := (findPatchStart_spec orig chng pos count).1
        have hscan := (findPatchStartAccesses_between orig chng pos count).mono hlow hhigh
        generalize findPatchStart orig chng pos count = identical at hidentical ⊢
        have hcopy := copyDifferingAccesses_between chng count orig
          (show low ≤ pos + identical by omega)
          (show pos + identical + (count - identical) ≤ high by omega)
        obtain ⟨hpos, hleft, hcount⟩ := copyDiffering_bounds chng count orig
          (pos + identical) 0 (count - identical)
        generalize copyDiffering chng count orig (pos + identical) 0 (count - identical) = diff
          at hpos hleft hcount ⊢
        obtain ⟨orig', pos', c', left'⟩ := diff
        simp only at hpos hleft hcount ⊢
        -- the tail leaves nothing, and adds what was left to the counter
        have htail : (copyTail chng orig' pos' c' left').2.1 + (pos + identical) ≤ high ∧
            (copyTail chng orig' pos' c' left').2.2 ≤ left' := by
          unfold copyTail
          split_ifs with hshort hsame
          · exact ⟨by simp only; omega, Nat.zero_le _⟩
          · have hmod := Nat.mod_le (c' + left') (2 ^ 32)
            exact ⟨by simp only; omega, Nat.zero_le _⟩
          · exact ⟨by simp only; omega, le_rfl⟩
        generalize copyTail chng orig' pos' c' left' = tail at htail ⊢
        refine between_append.mpr ⟨between_append.mpr ⟨between_append.mpr ⟨between_append.mpr
          ⟨hscan, hcopy⟩, ?_⟩, ?_⟩, ih (by omega) (by omega)⟩
        · split_ifs
          · exact between_cons.mpr ⟨⟨by simp only; omega, by simp only; omega⟩, between_nil⟩
          · exact between_nil
        · split_ifs
          · exact between_cons.mpr ⟨⟨by simp only; omega, by simp only; omega⟩, between_nil⟩
          · exact between_nil

/-- **`write_out_object`** stays in the range it is called with, as long as a 32-bit offset
reaches the end of the range. -/
theorem writeOutObjectAccesses_between (base : Nat) (clone changed : Memory)
    {offset size : Nat} (hfits : offset + size ≤ 2 ^ 32) :
    Between (base + offset) (base + offset + size)
      (writeOutObjectAccesses base clone changed offset size) := by
  have hstart := (findPatchStart_spec (ByteMemory.shift clone base)
    (ByteMemory.shift changed base) offset size).1
  rw [Nat.add_assoc]
  refine Between.shift ?_ base
  refine between_append.mpr ⟨findPatchStartAccesses_between _ _ _ _, ?_⟩
  split_ifs with hall
  · exact between_nil
  · rw [writePatchAccesses, Nat.mod_eq_of_lt (by omega)]
    exact patchLoopAccesses_between _ _ (by omega) (by omega)

end Between

/-! ## One submit -/

/-- Every byte of the accesses is in the map and in the clone. -/
def Inside (layout : Layout) (window : Window) (accesses : List Access) : Prop :=
  ∀ a ∈ accesses, ∀ i, a.first ≤ i → i < a.first + a.count →
    (window.offset ≤ i ∧ i < window.offset + window.size) ∧ i < layout.allocationSize

/-- All that `write_out_object` accesses in one submit is inside. -/
def SubmitInside (layout : Layout) (s : State) (cmdbufs : List Nat) (visits : List (Nat × Nat))
    (stray : Memory) : Prop :=
  ∀ range window, (queueUpdates layout s cmdbufs).range = some range →
    bindingWindow layout s range = some window →
    Along (updateObject layout s (through window s.mem stray))
      (fun progress visit => ∀ object, layout.objects[visit.2]? = some object →
        Along (updateRange s.window.isSome (through window s.mem stray) visit.2 object)
          (fun progress r => Inside layout window
            (updateRangeAccesses s.window.isSome (through window s.mem stray) object progress r))
          progress (s.touched visit.1 visit.2).list)
      ⟨s.clone, s.exposed, s.packets⟩ visits

/-- A map that is used again reaches behind the last byte of the span, and a due byte is so near
to the start of its object that the 32-bit offset of `write_patch` reaches it. -/
def Reaches (layout : Layout) (s : State) : Label → Prop
  | .submit cmdbufs _ _ =>
      (∀ window range, s.window = some window →
        (queueUpdates layout s cmdbufs).range = some range →
        window.offset ≤ range.first → window.offset + window.size ≠ range.last) ∧
      ∀ cmdbuf ∈ cmdbufs, ∀ entry ∈ layout.objects.zipIdx, ∀ y, DueAt s cmdbuf entry y →
        y - entry.1.offset < 2 ^ 32
  | _ => True

/-- Between the rounds of `memory_update`: bytes are only taken out of the exposure. -/
structure Shrunk (s : State) (progress : Progress) : Prop where
  wf : progress.exposed.WF
  le : ∀ y, progress.exposed.Mem y → s.exposed.Mem y

theorem updateRange_shrunk {s : State} {isMapped : Bool} {changed : Memory} {index : Nat}
    {object : TrackedObject} {progress next : Progress} {r : Range}
    (hshrunk : Shrunk s progress)
    (hround : updateRange isMapped changed index object progress r = some next) :
    Shrunk s next := by
  unfold updateRange Exposure.fetch at hround
  simp only at hround
  split_ifs at hround with hinside hle
  · obtain ⟨-, hwf, hkept⟩ := Exposure.fetchRange_spec progress.exposed _ _ isMapped hshrunk.wf hle
    have hsub : Shrunk s { progress with exposed := (progress.exposed.fetchRange
        ((r.first + object.offset) % 2 ^ 64) ((r.last + object.offset) % 2 ^ 64) isMapped).2 } :=
      ⟨hwf, fun y hy => hshrunk.le y ((hkept y).mp hy).1⟩
    simp only at hround
    split_ifs at hround
    · cases hround
      exact ⟨hsub.wf, hsub.le⟩
    · cases hround
      exact hsub

theorem updateObject_shrunk {layout : Layout} {s : State} {changed : Memory}
    {progress next : Progress} {visit : Nat × Nat} (hshrunk : Shrunk s progress)
    (hvisit : updateObject layout s changed progress visit = some next) : Shrunk s next := by
  unfold updateObject at hvisit
  split at hvisit
  · cases hvisit
  · exact exec_invariant_of_step (fun _ _ _ h hround => updateRange_shrunk h hround) hshrunk hvisit

/-- **One round**: a touched range whose due bytes are in the map. -/
theorem updateRange_inside {layout : Layout} {s : State} {window : Window} {changed : Memory}
    {isMapped : Bool} {cmdbuf index : Nat} {object : TrackedObject} {progress : Progress}
    {r : Range} (htracked : Tracked layout s) (hobject : layout.objects[index]? = some object)
    (hreach : ∀ y, DueAt s cmdbuf (object, index) y →
      (window.offset ≤ y ∧ y < window.offset + window.size) ∧ y - object.offset < 2 ^ 32)
    (hr : r ∈ (s.touched cmdbuf index).list) (hshrunk : Shrunk s progress) :
    Inside layout window (updateRangeAccesses isMapped changed object progress r) := by
  have hvalid := ((htracked.touched_wf cmdbuf index).valid r hr).1
  have hcovers := Exposure.covers_list (s.touched cmdbuf index)
  have hend := layout.bound_inside object (List.mem_of_getElem? hobject)
  have halloc := layout.allocation_lt
  have hlast := htracked.touched_inside cmdbuf index object hobject r.last
    ((hcovers r.last).mp ⟨r, hr, hvalid, le_rfl⟩)
  unfold updateRangeAccesses Exposure.fetch
  rw [Nat.mod_eq_of_lt (show r.first + object.offset < 2 ^ 64 by omega),
    Nat.mod_eq_of_lt (show r.last + object.offset < 2 ^ 64 by omega)]
  simp only
  rw [if_pos (by omega), if_pos (by omega)]
  obtain ⟨hhull, -, -⟩ := Exposure.fetchRange_spec progress.exposed (r.first + object.offset)
    (r.last + object.offset) isMapped hshrunk.wf (by omega)
  generalize progress.exposed.fetchRange (r.first + object.offset) (r.last + object.offset)
    isMapped = fetched at hhull ⊢
  obtain ⟨v, exposed⟩ := fetched
  simp only at hhull ⊢
  by_cases hv : v.Valid
  · rw [if_pos hv]
    obtain ⟨hfirst, hlast'⟩ := hhull.ends hv
    -- both ends of the hull are due, so the map reaches over it
    have hdue : ∀ y, progress.exposed.Mem y ∧ r.first + object.offset ≤ y ∧
        y ≤ r.last + object.offset → DueAt s cmdbuf (object, index) y := fun y hy =>
      ⟨hshrunk.le y hy.1, by simp only; omega,
        (hcovers _).mp ⟨r, hr, by simp only; omega, by simp only; omega⟩⟩
    obtain ⟨⟨hlow, -⟩, -⟩ := hreach _ (hdue _ hfirst)
    obtain ⟨⟨-, hhigh⟩, hnear⟩ := hreach _ (hdue _ hlast')
    have hle : v.first ≤ v.last := hv
    have hbetween := writeOutObjectAccesses_between object.offset progress.clone changed
      (show v.first - object.offset + (v.last - v.first + 1) ≤ 2 ^ 32 by omega)
    intro a ha i hi hlt
    have := hbetween a ha
    omega
  · rw [if_neg hv]
    exact fun _ h => absurd h List.not_mem_nil

/-- The map that `memory_update` reads through reaches over the span. -/
theorem bindingWindow_reaches {layout : Layout} {s : State} {range : Range} {window : Window}
    (hbinding : bindingWindow layout s range = some window)
    (hend : ∀ current, s.window = some current → current.offset ≤ range.first →
      current.offset + current.size ≠ range.last) :
    ∀ y, range.Mem y → window.offset ≤ y ∧ y < window.offset + window.size := by
  have hremap : ∀ own : Window, (if range.last - range.first + 1 ≤ layout.allocationSize then
      some (⟨range.first, range.last - range.first + 1⟩ : Window) else none) = some own →
      ∀ y, range.Mem y → own.offset ≤ y ∧ y < own.offset + own.size := by
    intro own hown y hy
    split_ifs at hown
    cases hown
    unfold Interval.Mem at hy
    simp only
    omega
  unfold bindingWindow at hbinding
  simp only at hbinding
  cases hcurrent : s.window with
  | none =>
      rw [hcurrent] at hbinding
      exact hremap window hbinding
  | some current =>
      rw [hcurrent] at hbinding
      simp only at hbinding
      split_ifs at hbinding with hreuse
      · cases hbinding
        have hne := hend window hcurrent hreuse.1
        have hmod := Nat.mod_le (window.size + window.offset) (2 ^ 64)
        intro y hy
        unfold Interval.Mem at hy
        omega
      · exact hremap window (by rwa [if_pos (by assumption)])

/-- **One submit.**  Where the condition is met, all accesses are inside. -/
theorem submit_inside {layout : Layout} {s : State} {cmdbufs : List Nat}
    {visits : List (Nat × Nat)} {stray : Memory} (htracked : Tracked layout s)
    (hvisits : visits.Perm (visitsOf layout (queueUpdates layout s cmdbufs).cmdbufs))
    (hreaches : Reaches layout s (.submit cmdbufs visits stray)) :
    SubmitInside layout s cmdbufs visits stray := by
  obtain ⟨hend, hnear⟩ := hreaches
  intro range window hrange hbinding
  have hcollected := queueUpdates_collected layout s cmdbufs htracked.exposed_wf
    htracked.touched_wf
  have hreach := bindingWindow_reaches hbinding fun current hcurrent =>
    hend current range hcurrent hrange
  refine along_of_invariant (fun _ _ _ (h : Shrunk s _) hvisit => updateObject_shrunk h hvisit)
    (fun progress visit hvisit hshrunk => ?_)
    ⟨htracked.exposed_wf, fun _ h => h⟩
  obtain ⟨hcmdbuf, -⟩ := mem_visitsOf.mp (hvisits.mem_iff.mp hvisit)
  obtain ⟨_, hsubmitted, -⟩ := hcollected.seen_of_cmdbuf visit.1 hcmdbuf
  intro object hobject
  have hentry : (object, visit.2) ∈ layout.objects.zipIdx :=
    List.mem_zipIdx_iff_getElem?.mpr hobject
  refine along_of_invariant (fun _ _ _ (h : Shrunk s _) hround => updateRange_shrunk h hround)
    (fun progress r hr hshrunk => ?_) hshrunk
  refine updateRange_inside htracked hobject (fun y hdue => ⟨?_, ?_⟩) hr hshrunk
  · obtain ⟨m, hm, hmem⟩ := hcollected.range_of_seen visit.1 y
      ⟨hsubmitted, (object, visit.2), hentry, hdue⟩
    rw [hrange] at hm
    cases hm
    exact hreach y hmem
  · exact hnear visit.1 hsubmitted (object, visit.2) hentry y hdue

/-! ## Runs -/

/-- `trace_post_vkMapMemory` for memory that is not coherent: nothing is exposed. -/
def mapIncoherent (layout : Layout) (s : State) (offset size : Nat) : State :=
  let size :=
    if size = wholeSize ∨ (size + offset) % 2 ^ 64 > layout.allocationSize then
      (layout.allocationSize + 2 ^ 64 - offset) % 2 ^ 64
    else
      size
  { s with window := some ⟨offset, size⟩ }

/-- One step of the application on a memory of either kind. -/
def step (coherent : Bool) (layout : Layout) (s : State) (label : Label) : Option State :=
  match label with
  | .map offset size =>
      if offset < 2 ^ 64 ∧ size < 2 ^ 64 then
        if coherent then mapMemory layout s offset size
        else some (mapIncoherent layout s offset size)
      else none
  | label => HostMemory.step layout s label

theorem mapMemory_tracked {layout : Layout} {s next : State} {offset size : Nat}
    (htracked : Tracked layout s) (hoffset : offset < 2 ^ 64) (hsize : size < 2 ^ 64)
    (hmap : mapMemory layout s offset size = some next) : Tracked layout next := by
  unfold mapMemory at hmap
  simp only at hmap
  split at hmap
  · cases hmap
  · case _ exposed hadd =>
      cases hmap
      obtain ⟨hwf, -⟩ := Exposure.addOs_eq_some htracked.exposed_wf hoffset
        (by split <;> omega) hadd
      exact ⟨hwf, htracked.touched_wf, htracked.touched_inside⟩

theorem flushMappedMemoryRange_tracked {layout : Layout} {s next : State} {offset size : Nat}
    (htracked : Tracked layout s)
    (hflush : flushMappedMemoryRange s offset size = some next) : Tracked layout next := by
  unfold flushMappedMemoryRange at hflush
  split at hflush
  · cases hflush
    exact htracked
  · case _ first last hclamp =>
      have hlt := clampMappedFlushRange_lt hclamp
      split at hflush
      · cases hflush
      · case _ exposed hadd =>
          cases hflush
          obtain ⟨hwf, -⟩ := Exposure.addOs_eq_some htracked.exposed_wf (by omega) (by omega) hadd
          exact ⟨hwf, htracked.touched_wf, htracked.touched_inside⟩

/-- A submit leaves the touched ranges alone and only takes bytes out of the exposure. -/
theorem submit_tracked {layout : Layout} {s next : State} {cmdbufs : List Nat}
    {visits : List (Nat × Nat)} {stray : Memory} (htracked : Tracked layout s)
    (hsubmit : submit layout s cmdbufs visits stray = some next) : Tracked layout next := by
  unfold submit memoryUpdate at hsubmit
  simp only at hsubmit
  split_ifs at hsubmit
  split at hsubmit
  · cases hsubmit
    exact htracked
  · split at hsubmit
    · cases hsubmit
    · split at hsubmit
      · cases hsubmit
      · case _ progress hexec =>
          cases hsubmit
          have hshrunk : Shrunk s progress := exec_invariant_of_step
            (fun _ _ _ h hvisit => updateObject_shrunk h hvisit)
            ⟨htracked.exposed_wf, fun _ h => h⟩ hexec
          exact ⟨hshrunk.wf, htracked.touched_wf, htracked.touched_inside⟩

theorem step_tracked {coherent : Bool} {layout : Layout} {s next : State} {label : Label}
    (htracked : Tracked layout s) (hstep : step coherent layout s label = some next) :
    Tracked layout next := by
  cases label with
  | map offset size =>
      simp only [step] at hstep
      split_ifs at hstep with hbounds hcoherent
      · exact mapMemory_tracked htracked hbounds.1 hbounds.2 hstep
      · cases hstep
        exact ⟨htracked.exposed_wf, htracked.touched_wf, htracked.touched_inside⟩
  | write pos value =>
      simp only [step, HostMemory.step, hostWrite] at hstep
      split at hstep
      · cases hstep
      · split_ifs at hstep
        cases hstep
        exact ⟨htracked.exposed_wf, htracked.touched_wf, htracked.touched_inside⟩
  | flush offset size =>
      simp only [step, HostMemory.step] at hstep
      split_ifs at hstep
      exact flushMappedMemoryRange_tracked htracked hstep
  | unmap =>
      cases hstep
      exact ⟨htracked.exposed_wf, htracked.touched_wf, htracked.touched_inside⟩
  | touch cmdbuf index offset size => exact (touch_tracked htracked hstep).1
  | submit cmdbufs visits stray => exact submit_tracked htracked hstep

/-- **Submits stay inside.**  In a run of maps, host writes, flushes, unmaps, touches and submits
whose submits meet the condition, every byte that a submit compares, copies or writes to the
clone lies in the map that is used and in the clone. -/
theorem submits_stay_inside (coherent : Bool) (layout : Layout) (labels : List Label)
    (final : State) (hexec : exec (step coherent layout) {} labels = some final)
    (halong : Along (step coherent layout) (Reaches layout) {} labels) :
    ∀ k middle cmdbufs visits stray,
      exec (step coherent layout) {} (labels.take k) = some middle →
      labels[k]? = some (.submit cmdbufs visits stray) →
      SubmitInside layout middle cmdbufs visits stray := by
  intro k middle cmdbufs visits stray hmiddle hlabel
  have htracked : Tracked layout middle := exec_invariant_of_step
    (fun _ _ _ h hstep => step_tracked h hstep) (inv_init layout).tracked hmiddle
  obtain ⟨next, hstep⟩ := exec_getElem? hexec hmiddle hlabel
  exact submit_inside htracked (submit_eq_some hstep) (along_getElem? halong hmiddle hlabel)

/-- Where no object is larger than four gigabytes, every due byte is near enough. -/
theorem Tracked.near {layout : Layout} {s : State} (htracked : Tracked layout s)
    (hsmall : ∀ object ∈ layout.objects, object.size ≤ 2 ^ 32) {cmdbuf : Nat}
    {entry : TrackedObject × Nat} (hentry : entry ∈ layout.objects.zipIdx) {y : Nat}
    (hdue : DueAt s cmdbuf entry y) : y - entry.1.offset < 2 ^ 32 := by
  have hobject := List.mem_zipIdx_iff_getElem?.mp hentry
  have hlt := htracked.touched_inside cmdbuf entry.2 entry.1 hobject _ hdue.2.2
  have := hsmall entry.1 (List.mem_of_getElem? hobject)
  omega

/-- Both objects of the run are submitted after the unmap, through a map of the submit's own. -/
theorem submits_stay_inside_neighbours :
    ∃ middle, exec (step true neighbours) {} (neighboursRun.take 6) = some middle ∧
      SubmitInside neighbours middle [0] [(0, 1), (0, 0)] zeroed := by
  have hrun : (exec (step true neighbours) {} neighboursRun).isSome = true := by decide
  have hfront : ((exec (step true neighbours) {} (neighboursRun.take 6)).map (·.window)) =
      some none := by decide
  obtain ⟨middle, hmiddle, hwindow⟩ := Option.map_eq_some_iff.mp hfront
  have htracked : Tracked neighbours middle := exec_invariant_of_step
    (fun _ _ _ h hstep => step_tracked h hstep) (inv_init neighbours).tracked hmiddle
  refine ⟨middle, hmiddle, submits_stay_inside true neighbours neighboursRun _
    (Option.some_get hrun).symm ?_ 6 _ _ _ _ hmiddle rfl⟩
  refine (along_snoc_iff hmiddle).mpr ⟨?_, ?_, ?_⟩
  · have hnone : Along (step true neighbours) (fun _ label => ∀ cmdbufs visits stray,
        label ≠ .submit cmdbufs visits stray) {} (neighboursRun.take 6) :=
      along_of_forall (by simp [neighboursRun])
    refine hnone.mono fun s label hlabel => ?_
    cases label with
    | submit cmdbufs visits stray => exact absurd rfl (hlabel cmdbufs visits stray)
    | _ => trivial
  · intro window range hsome
    rw [hwindow] at hsome
    cases hsome
  · intro cmdbuf _ entry hentry y hdue
    exact Tracked.near htracked (by decide) hentry hdue

theorem sixteen_lt_wrap : 16 < 2 ^ 64 := by
  norm_num

theorem single_bound_inside : ∀ object ∈ [(⟨0, 16, true⟩ : TrackedObject)],
    object.offset + object.size ≤ 16 := by
  intro object hobject
  rw [List.mem_singleton.mp hobject]
  exact le_rfl

/-- One object of 16 bytes. -/
def single : Layout where
  allocationSize := 16
  objects := [⟨0, 16, true⟩]
  allocation_lt := sixteen_lt_wrap
  bound_inside := single_bound_inside

/-- The second map ends one byte in front of the last byte that is due. -/
def shortMapRun : List Label := [.map 0 16, .unmap, .map 0 8, .touch 0 0 0 9]

/-- The submit uses the short map again and compares the byte behind it. -/
theorem submit_reads_behind_the_map :
    ¬ ∀ (labels : List Label) (middle final : State),
      exec (step true single) {} labels = some middle →
      step true single middle (.submit [0] [(0, 0)] zeroed) = some final →
      SubmitInside single middle [0] [(0, 0)] zeroed := by
  intro h
  have hrun : ((exec (step true single) {} shortMapRun).bind fun middle =>
      step true single middle (.submit [0] [(0, 0)] zeroed)).isSome = true := by decide
  obtain ⟨final, hfinal⟩ := Option.isSome_iff_exists.mp hrun
  obtain ⟨middle, hmiddle, hstep⟩ := Option.bind_eq_some_iff.mp hfinal
  have hfacts : (exec (step true single) {} shortMapRun).map (fun m => decide
      ((queueUpdates single m [0]).range = some ⟨0, 8⟩ ∧
        bindingWindow single m ⟨0, 8⟩ = some ⟨0, 8⟩ ∧ (m.touched 0 0).list = [⟨0, 8⟩] ∧
        ⟨8, 1⟩ ∈ updateRangeAccesses m.window.isSome (through ⟨0, 8⟩ m.mem zeroed)
          ⟨0, 16, true⟩ ⟨m.clone, m.exposed, m.packets⟩ ⟨0, 8⟩)) = some true := by decide
  rw [hmiddle, Option.map_some, Option.some_inj, decide_eq_true_eq] at hfacts
  obtain ⟨hrange, hbinding, htouched, haccess⟩ := hfacts
  have hvisit := (h shortMapRun middle final hmiddle hstep _ _ hrange hbinding).1 _ rfl
  rw [htouched] at hvisit
  have hbyte := hvisit.1 _ haccess 8 le_rfl (by decide)
  exact absurd hbyte.1.2 (by decide)

end UpdateWindow
end Lavatube
