import Lavatube.Lib.Transition

/-!
# Frames at capture

Every present runs `lava_writer::new_frame`, which under `frame_mutex` informs one thread
after the other and then advances the global frame; each thread records the global frame
with its own frame counter, which `write_header` sets to the global frame outside the mutex.

`frame_mutex` is not held from `write_header` of a present to its `new_frame`, so that
presents of different threads, on queues of their own, may overlap.  The barrier in front of
a present names the packets that had ended when it was written; whatever else a present
waits for on replay has ended before its header as well.

The frame counter of a thread that has written nothing is `UINT32_MAX`, which is stored as
the `int` -1.

* `captureStep` — the capture, down to the single thread that is informed or whose packet
  number is read for a barrier.
* `Inv` — what the capture has recorded of a thread that did all the presenting.
* `BarrierInv` — what the barriers name.
* `capture_inv` — both hold after every run.
-/

namespace Lavatube
namespace FrameCapture

open Transition

/-- `struct framedata`, without the position in the stream. -/
structure FrameData where
  globalFrame : Int
  localFrame : Int
deriving DecidableEq, Repr

/-! ## Capture -/

/-- Where a thread stands in a present: outside of one, in `inject_thread_barrier`, behind
its barrier, behind `write_header`, or behind `lava_writer::new_frame`, with the present
that it was. -/
inductive Call where
  | idle
  | injecting
  | barred
  | headed
  | presented (present : Nat)
deriving DecidableEq, Repr

/-- The members of `lava_file_writer` that frames use.  `headed` once the thread has
come through `write_header`; `barrier` are the presents whose packets had ended for the
barrier in front of its own one. -/
structure Writer where
  frame : Int := -1
  frames : List FrameData := []
  headed : Bool := false
  call : Call := .idle
  barrier : List Nat := []
deriving DecidableEq, Repr

/-- The capture.  `informing` is the thread that holds `frame_mutex` in
`lava_writer::new_frame` and the index of the next thread to inform; `injecting` the one
that holds it in `inject_thread_barrier`, the index of the next thread whose packet number
it reads, and the presents that the barrier names so far.  `presents` are the threads that
have presented, in the order of the global frames, `barriers` their barriers, and `ended`
the presents whose packets have ended. -/
structure Capture where
  threadCount : Nat := 0
  writers : Nat → Writer := fun _ => {}
  globalFrame : Int := 0
  informing : Option (Nat × Nat) := none
  injecting : Option (Nat × Nat × List Nat) := none
  presents : List Nat := []
  barriers : List (List Nat) := []
  ended : List Nat := []

/-- The steps of the capture. -/
inductive Label where
  | makeWriter
  | lockBarrier (thread : Nat)
  | readPacket
  | unlockBarrier
  | writeHeader (thread : Nat)
  | lock (thread : Nat)
  | inform
  | unlock
  | endPacket (thread : Nat)
deriving DecidableEq, Repr

/-- `lava_file_writer::new_frame`; `none` is the failed assertion. -/
def Writer.newFrame (writer : Writer) (globalFrame : Int) : Option Writer :=
  if globalFrame ≥ writer.frame then
    some { writer with
      frames := writer.frames ++ [⟨globalFrame, writer.frame⟩]
      frame := writer.frame + 1 }
  else
    none

/-- Nobody holds `frame_mutex`. -/
def Capture.Free (c : Capture) : Prop := c.informing = none ∧ c.injecting = none

instance (c : Capture) : Decidable c.Free := inferInstanceAs (Decidable (_ ∧ _))

/-- The presents of a thread whose packets have ended: what `current.packet` says of them. -/
def Capture.endedBy (c : Capture) (thread : Nat) : List Nat :=
  c.ended.filter fun k => c.presents[k]? = some thread

/-- One step of the capture.  A present is a barrier, its header, `lava_writer::new_frame`
and the end of its packet; another call is its header only.  A barrier is written a second
time if another thread has pushed one to this thread meanwhile. -/
def captureStep (c : Capture) : Label → Option Capture
  | .makeWriter =>
      if c.Free then
        some { c with
          threadCount := c.threadCount + 1
          writers := Function.update c.writers c.threadCount {} }
      else
        none
  | .lockBarrier thread =>
      if c.Free ∧ thread < c.threadCount ∧
          ((c.writers thread).call = .idle ∨ (c.writers thread).call = .barred) then
        some { c with
          writers := Function.update c.writers thread
            { c.writers thread with call := .injecting }
          injecting := some (thread, 0, []) }
      else
        none
  | .readPacket =>
      match c.injecting with
      | none => none
      | some (thread, next, seen) =>
          if next < c.threadCount then
            some { c with injecting := some (thread, next + 1, seen ++ c.endedBy next) }
          else
            none
  | .unlockBarrier =>
      match c.injecting with
      | none => none
      | some (thread, next, seen) =>
          if next = c.threadCount then
            some { c with
              writers := Function.update c.writers thread
                { c.writers thread with call := .barred, barrier := seen }
              injecting := none }
          else
            none
  | .writeHeader thread =>
      if thread < c.threadCount ∧
          ((c.writers thread).call = .idle ∨ (c.writers thread).call = .barred) then
        some { c with
          writers := Function.update c.writers thread
            { c.writers thread with
              frame := c.globalFrame
              headed := true
              call := if (c.writers thread).call = .barred then .headed else .idle } }
      else
        none
  | .lock thread =>
      if c.Free ∧ thread < c.threadCount ∧ (c.writers thread).call = .headed then
        some { c with informing := some (thread, 0) }
      else
        none
  | .inform =>
      match c.informing with
      | none => none
      | some (thread, next) =>
          if next < c.threadCount then
            ((c.writers next).newFrame c.globalFrame).map fun writer =>
              { c with
                writers := Function.update c.writers next writer
                informing := some (thread, next + 1) }
          else
            none
  | .unlock =>
      match c.informing with
      | none => none
      | some (thread, next) =>
          if next = c.threadCount then
            some { c with
              globalFrame := c.globalFrame + 1
              writers := Function.update c.writers thread
                { c.writers thread with call := .presented c.presents.length }
              informing := none
              presents := c.presents ++ [thread]
              barriers := c.barriers ++ [(c.writers thread).barrier] }
          else
            none
  | .endPacket thread =>
      match (c.writers thread).call with
      | .presented present =>
          some { c with
            writers := Function.update c.writers thread { c.writers thread with call := .idle }
            ended := c.ended ++ [present] }
      | _ => none

/-- The presents that the barrier of a present waits for. -/
def Capture.waits (c : Capture) (present : Nat) : List Nat := c.barriers.getD present []

/-- The number of a present among those of its own thread. -/
def Capture.ownNumber (c : Capture) (present : Nat) : Nat :=
  ((Finset.range present).filter fun k => c.presents[k]? = c.presents[present]?).card

/-! ## What the capture records -/

/-- What a thread has recorded once it has been informed of `reached` frames.  The
last two fields are about a thread that has issued all of these presents: the local
frames it has recorded are the global ones, and its frame counter is the global
frame. -/
structure Recorded (presenters : List Nat) (reached : Nat) (thread : Nat)
    (writer : Writer) : Prop where
  sorted : writer.frames.Pairwise fun e e' => e.globalFrame < e'.globalFrame
  bound : ∀ e ∈ writer.frames, 0 ≤ e.globalFrame ∧ e.globalFrame < reached
  present : ∀ g < reached, presenters[g]? = some thread →
    ∃ e ∈ writer.frames, e.globalFrame = g
  own : ∀ e ∈ writer.frames,
    (∀ j : Nat, (j : Int) ≤ e.globalFrame → presenters[j]? = some thread) →
      e.localFrame = e.globalFrame
  sync : writer.headed = true → (∀ j < reached, presenters[j]? = some thread) →
    writer.frame = reached

/-- A thread that has not been created has presented nothing. -/
theorem recorded_blank {presenters : List Nat} {reached thread : Nat}
    (habsent : thread ∉ presenters) : Recorded presenters reached thread {} where
  sorted := List.Pairwise.nil
  bound := by simp
  present := fun g _ hpresent => (habsent (List.mem_of_getElem? hpresent)).elim
  own := by simp
  sync := by simp

section

variable {presenters : List Nat} {reached thread : Nat} {writer : Writer}

/-- `write_header`. -/
theorem Recorded.header (hrecorded : Recorded presenters reached thread writer)
    {globalFrame : Int}
    (hframe : (∀ j < reached, presenters[j]? = some thread) → globalFrame = reached) :
    Recorded presenters reached thread
      { writer with frame := globalFrame, headed := true } :=
  ⟨hrecorded.sorted, hrecorded.bound, hrecorded.present, hrecorded.own, fun _ => hframe⟩

/-- A present that the thread has not been informed of. -/
theorem Recorded.concat (hrecorded : Recorded presenters reached thread writer)
    (hreached : reached ≤ presenters.length) (presenter : Nat) :
    Recorded (presenters ++ [presenter]) reached thread writer := by
  have hearlier : ∀ j < reached, (presenters ++ [presenter])[j]? = presenters[j]? :=
    fun j hj => List.getElem?_append_left (by omega)
  refine ⟨hrecorded.sorted, hrecorded.bound, fun g hg hpresent => ?_,
    fun e he hall => ?_, fun hheaded hall => ?_⟩
  · exact hrecorded.present g hg ((hearlier g hg).symm.trans hpresent)
  · have hbound := hrecorded.bound e he
    refine hrecorded.own e he fun j hj => ?_
    exact (hearlier j (by omega)).symm.trans (hall j hj)
  · exact hrecorded.sync hheaded fun j hj => (hearlier j hj).symm.trans (hall j hj)

/-- `lava_file_writer::new_frame`. -/
theorem Recorded.newFrame (hrecorded : Recorded presenters reached thread writer)
    (hheaded : presenters[reached]? = some thread → writer.headed = true) :
    Recorded presenters (reached + 1) thread
      { writer with
        frames := writer.frames ++ [⟨reached, writer.frame⟩]
        frame := writer.frame + 1 } := by
  constructor
  · refine List.pairwise_append.mpr ⟨hrecorded.sorted, by simp, fun e he e' he' => ?_⟩
    rw [List.mem_singleton.mp he']
    exact (hrecorded.bound e he).2
  · intro e he
    rcases List.mem_append.mp he with he | he
    · have := hrecorded.bound e he
      omega
    · rw [List.mem_singleton.mp he]
      simp only
      omega
  · intro g hg hpresent
    by_cases hlast : g = reached
    · subst hlast
      exact ⟨_, List.mem_append_right _ (List.mem_singleton_self _), rfl⟩
    · obtain ⟨e, he, hglobal⟩ := hrecorded.present g (by omega) hpresent
      exact ⟨e, List.mem_append_left _ he, hglobal⟩
  · intro e he hall
    rcases List.mem_append.mp he with he | he
    · exact hrecorded.own e he hall
    · rw [List.mem_singleton.mp he] at hall ⊢
      exact hrecorded.sync (hheaded (hall reached le_rfl)) fun j hj =>
        hall j (by simp only; omega)
  · intro hhead hall
    have hsync := hrecorded.sync hhead fun j hj => hall j (by omega)
    simp only [hsync]
    push_cast
    rfl

end

/-- The presenters, with the one that is informing the others. -/
def Capture.presenters (c : Capture) : List Nat :=
  c.presents ++ (c.informing.map Prod.fst).toList

/-- The number of global frames that a thread has been informed of. -/
def Capture.reached (c : Capture) (thread : Nat) : Nat :=
  match c.informing with
  | none => c.presents.length
  | some (_, turn) => c.presents.length + if thread < turn then 1 else 0

/-- The records of a capture. -/
structure Inv (c : Capture) : Prop where
  count : c.globalFrame = c.presents.length
  blank : ∀ thread ≥ c.threadCount, c.writers thread = {}
  headed : ∀ thread ∈ c.presenters,
    thread < c.threadCount ∧ (c.writers thread).headed = true
  called : ∀ thread, (c.writers thread).call = .headed → (c.writers thread).headed = true
  busy : ∀ busy ∈ c.informing, (c.writers busy.1).call = .headed
  threads : ∀ thread, Recorded c.presenters (c.reached thread) thread (c.writers thread)

theorem inv_init : Inv {} := by
  constructor
  · rfl
  · exact fun _ _ => rfl
  · simp [Capture.presenters]
  · simp
  · simp
  · exact fun _ => recorded_blank (by simp [Capture.presenters])

section

variable {c next : Capture}

/-- A step that touches only the barriers and the packets that have ended. -/
theorem Inv.congr (hinv : Inv c) (hcount : next.threadCount = c.threadCount)
    (hwriters : next.writers = c.writers) (hframe : next.globalFrame = c.globalFrame)
    (hinforming : next.informing = c.informing) (hpresents : next.presents = c.presents) :
    Inv next := by
  obtain ⟨_, _, _, _, _, _, _, _⟩ := next
  cases hcount
  cases hwriters
  cases hframe
  cases hinforming
  cases hpresents
  exact ⟨hinv.count, hinv.blank, hinv.headed, hinv.called, hinv.busy, hinv.threads⟩

/-- The entry of a thread that has not been created is blank. -/
theorem Inv.update_blank (hinv : Inv c) :
    Function.update c.writers c.threadCount {} = c.writers := by
  rw [← hinv.blank c.threadCount le_rfl]
  exact Function.update_eq_self ..

theorem Inv.makeWriter (hinv : Inv c) (hstep : captureStep c .makeWriter = some next) :
    Inv next := by
  simp only [captureStep] at hstep
  split at hstep
  · cases hstep
    rw [hinv.update_blank]
    refine ⟨hinv.count, fun thread hge => ?_, fun thread hmem => ?_, hinv.called, hinv.busy,
      hinv.threads⟩
    · exact hinv.blank thread (Nat.le_of_succ_le hge)
    · obtain ⟨hlt, hheaded⟩ := hinv.headed thread hmem
      exact ⟨Nat.lt_succ_of_lt hlt, hheaded⟩
  · cases hstep

/-- A step that changes the writer of one thread, and what only that thread has been
informed of. -/
theorem Inv.setWriter (hinv : Inv c) {thread : Nat} (writer : Writer)
    (informing : Option (Nat × Nat)) (hthread : thread < c.threadCount)
    (hpresenter : informing.map Prod.fst = c.informing.map Prod.fst)
    (hheaded : (c.writers thread).headed = true → writer.headed = true)
    (hcalled : writer.call = .headed → writer.headed = true)
    (hbusy : ∀ busy ∈ informing, busy.1 = thread → writer.call = .headed)
    (hothers : ∀ other ≠ thread,
      Capture.reached { c with informing := informing } other = c.reached other)
    (hrecorded : Recorded c.presenters
      (Capture.reached { c with informing := informing } thread) thread writer) :
    Inv { c with
      writers := Function.update c.writers thread writer, informing := informing } := by
  have hpresenters : c.presents ++ (informing.map Prod.fst).toList = c.presenters := by
    rw [hpresenter]
    rfl
  refine ⟨hinv.count, fun other hge => ?_, fun other hmem => ?_, fun other => ?_,
    fun busy hmem => ?_, fun other => ?_⟩
  · have hne : other ≠ thread := by
      have : c.threadCount ≤ other := hge
      omega
    exact (Function.update_of_ne hne ..).trans (hinv.blank other hge)
  · obtain ⟨hlt, hold⟩ := hinv.headed other (hpresenters ▸ hmem)
    refine ⟨hlt, ?_⟩
    show (Function.update c.writers thread writer other).headed = true
    by_cases hsame : other = thread
    · subst hsame
      rw [Function.update_self]
      exact hheaded hold
    · rw [Function.update_of_ne hsame]
      exact hold
  · show (Function.update c.writers thread writer other).call = .headed →
      (Function.update c.writers thread writer other).headed = true
    by_cases hsame : other = thread
    · subst hsame
      rw [Function.update_self]
      exact hcalled
    · rw [Function.update_of_ne hsame]
      exact hinv.called other
  · show (Function.update c.writers thread writer busy.1).call = .headed
    by_cases hsame : busy.1 = thread
    · rw [hsame, Function.update_self]
      exact hbusy busy hmem hsame
    · -- the thread that informs is the one that has informed before
      obtain ⟨old, hold, hfst⟩ : ∃ old ∈ c.informing, old.1 = busy.1 := by
        have hmap : busy.1 ∈ c.informing.map Prod.fst := by
          rw [← hpresenter]
          exact Option.mem_map_of_mem Prod.fst hmem
        exact Option.mem_map.mp hmap
      rw [Function.update_of_ne hsame, ← hfst]
      exact hinv.busy old hold
  · show Recorded (c.presents ++ (informing.map Prod.fst).toList)
      (Capture.reached { c with informing := informing } other) other
      (Function.update c.writers thread writer other)
    rw [hpresenters]
    by_cases hsame : other = thread
    · subst hsame
      rw [Function.update_self]
      exact hrecorded
    · rw [Function.update_of_ne hsame, hothers other hsame]
      exact hinv.threads other

/-- A step that changes where a thread stands in its call. -/
theorem Inv.setCall (hinv : Inv c) {thread : Nat} (hthread : thread < c.threadCount)
    (call : Call) (barrier : List Nat) (hcall : call ≠ .headed)
    (hidle : (c.writers thread).call ≠ .headed) :
    Inv { c with
      writers := Function.update c.writers thread
        { c.writers thread with call := call, barrier := barrier } } := by
  have hrecorded := hinv.threads thread
  refine (hinv.setWriter { c.writers thread with call := call, barrier := barrier } c.informing
    hthread rfl (fun h => h) (fun h => (hcall h).elim) (fun busy hmem hsame => ?_)
    (fun _ _ => rfl) ⟨hrecorded.sorted, hrecorded.bound, hrecorded.present, hrecorded.own,
      hrecorded.sync⟩).congr rfl rfl rfl rfl rfl
  exact (hidle (hsame ▸ hinv.busy busy hmem)).elim

theorem Inv.lockBarrier (hinv : Inv c) {thread : Nat}
    (hstep : captureStep c (.lockBarrier thread) = some next) : Inv next := by
  simp only [captureStep] at hstep
  split at hstep
  · case _ henabled =>
      cases hstep
      obtain ⟨-, hlt, hcall⟩ := henabled
      exact (hinv.setCall hlt .injecting (c.writers thread).barrier (by simp)
        (by rcases hcall with h | h <;> simp [h])).congr rfl rfl rfl rfl rfl
  · cases hstep

theorem Inv.readPacket (hinv : Inv c) (hstep : captureStep c .readPacket = some next) :
    Inv next := by
  simp only [captureStep] at hstep
  split at hstep
  · cases hstep
  · split at hstep <;> cases hstep
    exact hinv.congr rfl rfl rfl rfl rfl

theorem Inv.unlockBarrier (hinv : Inv c)
    (hinjecting : ∀ busy ∈ c.injecting,
      busy.1 < c.threadCount ∧ (c.writers busy.1).call = .injecting)
    (hstep : captureStep c .unlockBarrier = some next) : Inv next := by
  simp only [captureStep] at hstep
  split at hstep
  · cases hstep
  · case _ thread turn seen hbusy =>
      obtain ⟨hlt, hcall⟩ := hinjecting _ hbusy
      split at hstep <;> cases hstep
      exact (hinv.setCall hlt .barred seen (by simp) (by simp [hcall])).congr rfl rfl rfl rfl rfl

theorem Inv.writeHeader (hinv : Inv c) {thread : Nat}
    (hstep : captureStep c (.writeHeader thread) = some next) : Inv next := by
  simp only [captureStep] at hstep
  split at hstep
  · case _ henabled =>
      cases hstep
      obtain ⟨hlt, hcall⟩ := henabled
      have hfree (busy : Nat × Nat) (hmem : busy ∈ c.informing) : busy.1 ≠ thread := by
        rintro rfl
        have hheaded := hinv.busy busy hmem
        rcases hcall with h | h <;> simp [h] at hheaded
      have hframe (hall : ∀ j < c.reached thread, c.presenters[j]? = some thread) :
          c.globalFrame = c.reached thread := by
        rw [hinv.count]
        unfold Capture.reached at hall ⊢
        cases hbusy : c.informing with
        | none => rfl
        | some busy =>
            rw [hbusy] at hall
            simp only at hall ⊢
            split
            · case _ hinformed =>
                -- the frame that is being recorded belongs to another thread
                have hpresenter := hall c.presents.length (by rw [if_pos hinformed]; omega)
                simp only [Capture.presenters, hbusy, Option.map_some, Option.toList_some,
                  List.getElem?_concat_length, Option.some_inj] at hpresenter
                exact (hfree busy hbusy hpresenter).elim
            · rfl
      have hrecorded := (hinv.threads thread).header hframe
      exact (hinv.setWriter { c.writers thread with
          frame := c.globalFrame
          headed := true
          call := if (c.writers thread).call = .barred then .headed else .idle }
        c.informing hlt rfl (fun _ => rfl) (fun _ => rfl)
        (fun busy hmem hsame => (hfree busy hmem hsame).elim) (fun _ _ => rfl)
        ⟨hrecorded.sorted, hrecorded.bound, hrecorded.present, hrecorded.own,
          hrecorded.sync⟩).congr rfl rfl rfl rfl rfl
  · cases hstep

theorem Inv.lock (hinv : Inv c) {thread : Nat}
    (hstep : captureStep c (.lock thread) = some next) : Inv next := by
  simp only [captureStep] at hstep
  split at hstep
  · case _ henabled =>
      cases hstep
      obtain ⟨⟨hquiet, -⟩, hlt, hcall⟩ := henabled
      have hheaded := hinv.called thread hcall
      have hpresenters : c.presenters = c.presents := by
        simp [Capture.presenters, hquiet]
      have hreached : ∀ other, c.reached other = c.presents.length := by
        intro other
        simp [Capture.reached, hquiet]
      refine ⟨hinv.count, hinv.blank, fun other hmem => ?_, hinv.called, fun busy hbusy => ?_,
        fun other => ?_⟩
      · rcases List.mem_append.mp hmem with hmem | hmem
        · exact hinv.headed other (hpresenters ▸ hmem)
        · rw [List.mem_singleton.mp hmem]
          exact ⟨hlt, hheaded⟩
      · cases hbusy
        exact hcall
      · have hold := hinv.threads other
        rw [hpresenters, hreached] at hold
        exact hold.concat le_rfl thread
  · cases hstep

theorem Inv.inform (hinv : Inv c) (hstep : captureStep c .inform = some next) :
    Inv next := by
  simp only [captureStep] at hstep
  split at hstep
  · cases hstep
  · case _ presenter turn hbusy =>
      split at hstep
      · case _ hturn =>
          obtain ⟨writer, hwriter, rfl⟩ := Option.map_eq_some_iff.mp hstep
          unfold Writer.newFrame at hwriter
          split at hwriter
          · cases hwriter
            have hold := hinv.threads turn
            have hbefore : c.reached turn = c.presents.length := by
              simp [Capture.reached, hbusy]
            have hafter : Capture.reached { c with informing := some (presenter, turn + 1) }
                turn = c.presents.length + 1 := by
              simp [Capture.reached]
            rw [hbefore] at hold
            refine hinv.setWriter _ _ hturn (by rw [hbusy]; rfl) (fun h => h)
              (hinv.called turn) (fun busy hmem hsame => ?_) (fun other hne => ?_) ?_
            · obtain rfl : (presenter, turn + 1) = busy := Option.some.inj hmem
              obtain rfl : presenter = turn := hsame
              exact hinv.busy _ hbusy
            · simp only [Capture.reached, hbusy]
              congr 1
              apply if_congr _ rfl rfl
              omega
            · rw [hafter, hinv.count]
              refine hold.newFrame fun hpresenter => ?_
              exact (hinv.headed turn (List.mem_of_getElem? hpresenter)).2
          · cases hwriter
      · cases hstep

theorem Inv.unlock (hinv : Inv c) (hstep : captureStep c .unlock = some next) :
    Inv next := by
  simp only [captureStep] at hstep
  split at hstep
  · cases hstep
  · case _ presenter turn hbusy =>
      split at hstep
      · case _ hturn =>
          cases hstep
          have hpresenters : c.presents ++ [presenter] = c.presenters := by
            simp [Capture.presenters, hbusy]
          have hpresenter := hinv.headed presenter (by simp [← hpresenters])
          have hcounted : Inv { c with
              globalFrame := c.globalFrame + 1
              informing := none
              presents := c.presents ++ [presenter] } := by
            refine ⟨?_, hinv.blank, fun other hmem => ?_, hinv.called, by simp, fun other => ?_⟩
            · show c.globalFrame + 1 = (c.presents ++ [presenter]).length
              rw [hinv.count]
              simp
            · have hmem' : other ∈ c.presents ++ [presenter] ++ [] := hmem
              rw [List.append_nil, hpresenters] at hmem'
              exact hinv.headed other hmem'
            · show Recorded (c.presents ++ [presenter] ++ []) (c.presents ++ [presenter]).length
                other (c.writers other)
              rw [List.append_nil, List.length_append, List.length_singleton, hpresenters]
              by_cases hcreated : other < c.threadCount
              · have hreached : c.reached other = c.presents.length + 1 := by
                  simp [Capture.reached, hbusy, hturn, hcreated]
                exact hreached ▸ hinv.threads other
              · rw [hinv.blank other (by omega)]
                exact recorded_blank fun hmem => hcreated (hinv.headed other hmem).1
          have hrecorded := hcounted.threads presenter
          exact (hcounted.setWriter { c.writers presenter with
              call := .presented c.presents.length } none hpresenter.1 rfl (fun h => h) (by simp)
            (by simp) (fun _ _ => rfl) ⟨hrecorded.sorted, hrecorded.bound, hrecorded.present,
              hrecorded.own, hrecorded.sync⟩).congr rfl rfl rfl rfl rfl
      · cases hstep

theorem Inv.endPacket (hinv : Inv c) {thread : Nat}
    (hstep : captureStep c (.endPacket thread) = some next) : Inv next := by
  simp only [captureStep] at hstep
  split at hstep
  · case _ present hcall =>
      cases hstep
      have hlt : thread < c.threadCount := by
        by_contra hout
        simp [hinv.blank thread (not_lt.mp hout)] at hcall
      exact (hinv.setCall hlt .idle (c.writers thread).barrier (by simp) (by simp [hcall])).congr
        rfl rfl rfl rfl rfl
  · cases hstep

end

/-! ## What the barriers name -/

/-- What the barrier that a thread has written names. -/
structure Named (c : Capture) (thread : Nat) (seen : List Nat) : Prop where
  ended : ∀ k ∈ seen, k ∈ c.ended
  closed : ∀ k ∈ seen, ∀ e ∈ c.waits k, e ∈ seen
  own : ∀ k, c.presents[k]? = some thread → k ∈ seen

/-- What the barrier that a thread is writing names, of the threads in front of `turn`. -/
structure Naming (c : Capture) (thread turn : Nat) (seen : List Nat) : Prop where
  ended : ∀ k ∈ seen, k ∈ c.ended
  closed : ∀ k, ∀ e ∈ c.waits k, ∀ presenter, c.presents[e]? = some presenter →
    presenter < turn → e ∈ seen
  own : ∀ k, c.presents[k]? = some thread → thread < turn → k ∈ seen

/-- The barriers of a capture. -/
structure BarrierInv (c : Capture) : Prop where
  length : c.barriers.length = c.presents.length
  ended_lt : ∀ k ∈ c.ended, k < c.presents.length
  ends : ∀ k thread, c.presents[k]? = some thread →
    k ∈ c.ended ∨ (c.writers thread).call = .presented k
  presented : ∀ k thread, (c.writers thread).call = .presented k →
    c.presents[k]? = some thread
  waits_ended : ∀ j, ∀ e ∈ c.waits j, e ∈ c.ended
  waits_lt : ∀ j, ∀ e ∈ c.waits j, e < j
  waits_closed : ∀ j, ∀ k ∈ c.waits j, ∀ e ∈ c.waits k, e ∈ c.waits j
  waits_own : ∀ j thread, c.presents[j]? = some thread →
    ∀ k < j, c.presents[k]? = some thread → k ∈ c.waits j
  named : ∀ thread, (c.writers thread).call = .barred ∨ (c.writers thread).call = .headed →
    Named c thread (c.writers thread).barrier
  exclusive : c.informing = none ∨ c.injecting = none
  naming : ∀ thread turn seen, c.injecting = some (thread, turn, seen) →
    (c.writers thread).call = .injecting ∧ Naming c thread turn seen

section

variable {c next : Capture}

/-- A thread in the middle of a present or outside of one has ended its earlier ones. -/
theorem BarrierInv.mem_ended (hbarriers : BarrierInv c) {k thread : Nat}
    (hpresent : c.presents[k]? = some thread)
    (hcall : ∀ k, (c.writers thread).call ≠ .presented k) : k ∈ c.ended :=
  (hbarriers.ends k thread hpresent).resolve_right (hcall k)

/-- A step that changes the writer of one thread, ends a packet or holds `frame_mutex`. -/
theorem BarrierInv.setWriter (hbarriers : BarrierInv c) {thread : Nat} (writer : Writer)
    (informing : Option (Nat × Nat)) (injecting : Option (Nat × Nat × List Nat))
    (ended : List Nat) (hmono : ∀ k ∈ c.ended, k ∈ ended)
    (hlt : ∀ k ∈ ended, k < c.presents.length)
    (hends : ∀ k, c.presents[k]? = some thread → k ∈ ended ∨ writer.call = .presented k)
    (hpresented : ∀ k, writer.call = .presented k → c.presents[k]? = some thread)
    (hnamed : writer.call = .barred ∨ writer.call = .headed → Named c thread writer.barrier)
    (hexclusive : informing = none ∨ injecting = none)
    (hnaming : ∀ other turn seen, injecting = some (other, turn, seen) →
      (Function.update c.writers thread writer other).call = .injecting ∧
        Naming c other turn seen) :
    BarrierInv { c with
      writers := Function.update c.writers thread writer
      informing := informing
      injecting := injecting
      ended := ended } where
  length := hbarriers.length
  ended_lt := hlt
  ends k other hpresent := by
    show k ∈ ended ∨ (Function.update c.writers thread writer other).call = .presented k
    by_cases hsame : other = thread
    · subst hsame
      rw [Function.update_self]
      exact hends k hpresent
    · rw [Function.update_of_ne hsame]
      exact (hbarriers.ends k other hpresent).imp_left (hmono k)
  presented k other := by
    show (Function.update c.writers thread writer other).call = .presented k → _
    by_cases hsame : other = thread
    · subst hsame
      rw [Function.update_self]
      exact hpresented k
    · rw [Function.update_of_ne hsame]
      exact hbarriers.presented k other
  waits_ended j e he := hmono e (hbarriers.waits_ended j e he)
  waits_lt := hbarriers.waits_lt
  waits_closed := hbarriers.waits_closed
  waits_own := hbarriers.waits_own
  named other := by
    show (Function.update c.writers thread writer other).call = .barred ∨
      (Function.update c.writers thread writer other).call = .headed →
        Named _ other (Function.update c.writers thread writer other).barrier
    intro hcall
    have hold : Named c other (Function.update c.writers thread writer other).barrier := by
      by_cases hsame : other = thread
      · subst hsame
        rw [Function.update_self] at hcall ⊢
        exact hnamed hcall
      · rw [Function.update_of_ne hsame] at hcall ⊢
        exact hbarriers.named other hcall
    exact ⟨fun k hk => hmono k (hold.ended k hk), hold.closed, hold.own⟩
  exclusive := hexclusive
  naming other turn seen hinjecting := by
    obtain ⟨hcall, hold⟩ := hnaming other turn seen hinjecting
    exact ⟨hcall, fun k hk => hmono k (hold.ended k hk), hold.closed, hold.own⟩

/-- A step that only takes or leaves `frame_mutex`. -/
theorem BarrierInv.congr (hbarriers : BarrierInv c) (hwriters : next.writers = c.writers)
    (hpresents : next.presents = c.presents) (hlist : next.barriers = c.barriers)
    (hended : next.ended = c.ended) (hexclusive : next.informing = none ∨ next.injecting = none)
    (hnaming : ∀ thread turn seen, next.injecting = some (thread, turn, seen) →
      (c.writers thread).call = .injecting ∧ Naming c thread turn seen) : BarrierInv next := by
  obtain ⟨_, _, _, _, _, _, _, _⟩ := next
  cases hwriters
  cases hpresents
  cases hlist
  cases hended
  refine ⟨hbarriers.length, hbarriers.ended_lt, hbarriers.ends, hbarriers.presented,
    hbarriers.waits_ended, hbarriers.waits_lt, hbarriers.waits_closed, hbarriers.waits_own,
    fun thread hcall => ?_, hexclusive, fun thread turn seen hinjecting => ?_⟩
  · obtain ⟨h1, h2, h3⟩ := hbarriers.named thread hcall
    exact ⟨h1, h2, h3⟩
  · obtain ⟨hcall, h1, h2, h3⟩ := hnaming thread turn seen hinjecting
    exact ⟨hcall, h1, h2, h3⟩

theorem BarrierInv.makeWriter (hbarriers : BarrierInv c) (hinv : Inv c)
    (hstep : captureStep c .makeWriter = some next) : BarrierInv next := by
  simp only [captureStep] at hstep
  split at hstep
  · cases hstep
    exact hbarriers.congr hinv.update_blank rfl rfl rfl hbarriers.exclusive hbarriers.naming
  · cases hstep

theorem BarrierInv.lockBarrier (hbarriers : BarrierInv c) {thread : Nat}
    (hstep : captureStep c (.lockBarrier thread) = some next) : BarrierInv next := by
  simp only [captureStep] at hstep
  split at hstep
  · case _ henabled =>
      cases hstep
      obtain ⟨⟨hquiet, -⟩, -, hcall⟩ := henabled
      refine hbarriers.setWriter _ _ _ _ (fun _ h => h) hbarriers.ended_lt
        (fun k hpresent => Or.inl (hbarriers.mem_ended hpresent fun k => ?_)) (by simp) (by simp)
        (Or.inl hquiet) (fun other turn seen hinjecting => ?_)
      · rcases hcall with h | h <;> simp [h]
      · cases hinjecting
        rw [Function.update_self]
        exact ⟨rfl, by simp, by simp, by simp⟩
  · cases hstep

theorem BarrierInv.readPacket (hbarriers : BarrierInv c)
    (hstep : captureStep c .readPacket = some next) : BarrierInv next := by
  simp only [captureStep] at hstep
  split at hstep
  · cases hstep
  · case _ thread turn seen hbusy =>
      split at hstep <;> cases hstep
      obtain ⟨hcall, hnaming⟩ := hbarriers.naming thread turn seen hbusy
      refine hbarriers.congr rfl rfl rfl rfl ?_ fun other turn' seen' hinjecting => ?_
      · exact Or.inl (hbarriers.exclusive.resolve_right (by simp [hbusy]))
      · cases hinjecting
        -- the packet number of thread `turn` names all its presents that have ended
        have hmem {k : Nat} (hended : k ∈ c.ended) (hpresent : c.presents[k]? = some turn) :
            k ∈ c.endedBy turn := by
          simp [Capture.endedBy, hended, hpresent]
        refine ⟨hcall, fun k hk => ?_, fun k e he presenter hpresent hlt => ?_,
          fun k hpresent hlt => ?_⟩
        · rcases List.mem_append.mp hk with hk | hk
          · exact hnaming.ended k hk
          · exact (List.mem_filter.mp hk).1
        · rcases Nat.lt_succ_iff_lt_or_eq.mp hlt with hlt | rfl
          · exact List.mem_append_left _ (hnaming.closed k e he presenter hpresent hlt)
          · exact List.mem_append_right _ (hmem (hbarriers.waits_ended k e he) hpresent)
        · rcases Nat.lt_succ_iff_lt_or_eq.mp hlt with hlt | rfl
          · exact List.mem_append_left _ (hnaming.own k hpresent hlt)
          · refine List.mem_append_right _ (hmem (hbarriers.mem_ended hpresent ?_) hpresent)
            simp [hcall]

theorem BarrierInv.unlockBarrier (hbarriers : BarrierInv c) (hinv : Inv c)
    (hstep : captureStep c .unlockBarrier = some next) : BarrierInv next := by
  simp only [captureStep] at hstep
  split at hstep
  · cases hstep
  · case _ thread turn seen hbusy =>
      split at hstep
      · case _ hturn =>
          cases hstep
          obtain ⟨hcall, hnaming⟩ := hbarriers.naming thread turn seen hbusy
          have hcreated {k presenter : Nat} (hpresent : c.presents[k]? = some presenter) :
              presenter < turn := by
            rw [hturn]
            exact (hinv.headed presenter
              (List.mem_append_left _ (List.mem_of_getElem? hpresent))).1
          refine hbarriers.setWriter _ _ _ _ (fun _ h => h) hbarriers.ended_lt
            (fun k hpresent => Or.inl (hbarriers.mem_ended hpresent (by simp [hcall])))
            (by simp) (fun _ => ⟨hnaming.ended, fun k _ e he => ?_, fun k hpresent => ?_⟩)
            (Or.inr rfl) (by simp)
          · have hlt := hbarriers.ended_lt e (hbarriers.waits_ended k e he)
            have hpresent := List.getElem?_eq_getElem hlt
            exact hnaming.closed k e he _ hpresent (hcreated hpresent)
          · exact hnaming.own k hpresent (hcreated hpresent)
      · cases hstep

theorem BarrierInv.writeHeader (hbarriers : BarrierInv c) {thread : Nat}
    (hstep : captureStep c (.writeHeader thread) = some next) : BarrierInv next := by
  simp only [captureStep] at hstep
  split at hstep
  · case _ henabled =>
      cases hstep
      obtain ⟨-, hcall⟩ := henabled
      refine hbarriers.setWriter _ _ _ _ (fun _ h => h) hbarriers.ended_lt
        (fun k hpresent => Or.inl (hbarriers.mem_ended hpresent fun k => ?_)) (fun k h => ?_)
        (fun h => ?_) hbarriers.exclusive (fun other turn seen hinjecting => ?_)
      · rcases hcall with h | h <;> simp [h]
      · rcases hcall with hcall | hcall <;> simp [hcall] at h
      · rcases hcall with hcall | hcall
        · simp [hcall] at h
        · exact hbarriers.named thread (Or.inl hcall)
      · have hold := hbarriers.naming other turn seen hinjecting
        have hne : other ≠ thread := by
          rintro rfl
          rcases hcall with h | h <;> simp [h] at hold
        rw [Function.update_of_ne hne]
        exact hold
  · cases hstep

theorem BarrierInv.lock (hbarriers : BarrierInv c) {thread : Nat}
    (hstep : captureStep c (.lock thread) = some next) : BarrierInv next := by
  simp only [captureStep] at hstep
  split at hstep
  · case _ henabled =>
      cases hstep
      obtain ⟨⟨-, hquiet⟩, -⟩ := henabled
      exact hbarriers.congr rfl rfl rfl rfl (Or.inr hquiet) (by simp [hquiet])
  · cases hstep

theorem BarrierInv.inform (hbarriers : BarrierInv c)
    (hstep : captureStep c .inform = some next) : BarrierInv next := by
  simp only [captureStep] at hstep
  split at hstep
  · cases hstep
  · case _ presenter turn hbusy =>
      have hquiet := hbarriers.exclusive.resolve_left (by simp [hbusy])
      split at hstep
      · obtain ⟨writer, hwriter, rfl⟩ := Option.map_eq_some_iff.mp hstep
        unfold Writer.newFrame at hwriter
        split at hwriter <;> cases hwriter
        exact hbarriers.setWriter _ _ _ _ (fun _ h => h) hbarriers.ended_lt
          (fun k => hbarriers.ends k turn) (fun k => hbarriers.presented k turn)
          (hbarriers.named turn) (Or.inr hquiet) (by simp [hquiet])
      · cases hstep

theorem getElem?_concat_eq_some_iff {presents : List Nat} {k presenter thread : Nat} :
    (presents ++ [presenter])[k]? = some thread ↔
      presents[k]? = some thread ∨ (k = presents.length ∧ presenter = thread) := by
  rcases Nat.lt_trichotomy k presents.length with hlt | rfl | hgt
  · rw [List.getElem?_append_left hlt]
    simp [hlt.ne]
  · simp
  · rw [List.getElem?_eq_none (by simp; omega), List.getElem?_eq_none (by omega)]
    simp [hgt.ne']

theorem getD_concat (barriers : List (List Nat)) (barrier : List Nat) (j : Nat) :
    (barriers ++ [barrier]).getD j [] =
      if j = barriers.length then barrier else barriers.getD j [] := by
  simp only [List.getD_eq_getElem?_getD]
  rcases Nat.lt_trichotomy j barriers.length with hlt | rfl | hgt
  · rw [if_neg hlt.ne, List.getElem?_append_left hlt]
  · simp
  · rw [if_neg hgt.ne', List.getElem?_eq_none (by simp; omega),
      List.getElem?_eq_none (by omega)]

theorem BarrierInv.unlock (hbarriers : BarrierInv c) (hinv : Inv c)
    (hstep : captureStep c .unlock = some next) : BarrierInv next := by
  simp only [captureStep] at hstep
  split at hstep
  · cases hstep
  · case _ presenter turn hbusy =>
      split at hstep <;> cases hstep
      have hcall := hinv.busy _ hbusy
      have hquiet := hbarriers.exclusive.resolve_left (by simp [hbusy])
      have hnamed := hbarriers.named presenter (Or.inr hcall)
      have hwaits (j : Nat) :
          (c.barriers ++ [(c.writers presenter).barrier]).getD j [] =
            if j = c.presents.length then (c.writers presenter).barrier else c.waits j := by
        rw [getD_concat, hbarriers.length]
        rfl
      have hother {thread : Nat} (hne : thread ≠ presenter) :
          Function.update c.writers presenter { c.writers presenter with
            call := .presented c.presents.length } thread = c.writers thread :=
        Function.update_of_ne hne ..
      constructor
      · simp [hbarriers.length]
      · intro k hk
        have := hbarriers.ended_lt k hk
        simp only [List.length_append, List.length_singleton]
        omega
      · intro k thread hpresent
        rcases getElem?_concat_eq_some_iff.mp hpresent with hpresent | ⟨rfl, rfl⟩
        · rcases hbarriers.ends k thread hpresent with hended | hpresented
          · exact Or.inl hended
          · have hne : thread ≠ presenter := by
              rintro rfl
              simp [hcall] at hpresented
            exact Or.inr (by simpa only [hother hne] using hpresented)
        · exact Or.inr (by simp)
      · intro k thread hpresented
        refine getElem?_concat_eq_some_iff.mpr ?_
        by_cases hsame : thread = presenter
        · subst hsame
          simp only [Function.update_self, Call.presented.injEq] at hpresented
          exact Or.inr ⟨hpresented.symm, rfl⟩
        · simp only [hother hsame] at hpresented
          exact Or.inl (hbarriers.presented k thread hpresented)
      · intro j e he
        simp only [Capture.waits, hwaits] at he
        split at he
        · exact hnamed.ended e he
        · exact hbarriers.waits_ended j e he
      · intro j e he
        simp only [Capture.waits, hwaits] at he
        split at he
        · case _ hlast => exact hlast ▸ hbarriers.ended_lt e (hnamed.ended e he)
        · exact hbarriers.waits_lt j e he
      · intro j k hk e he
        simp only [Capture.waits, hwaits] at hk he ⊢
        by_cases hlast : j = c.presents.length
        · rw [if_pos hlast] at hk ⊢
          rw [if_neg (hbarriers.ended_lt k (hnamed.ended k hk)).ne] at he
          exact hnamed.closed k hk e he
        · rw [if_neg hlast] at hk ⊢
          rw [if_neg (hbarriers.ended_lt k (hbarriers.waits_ended j k hk)).ne] at he
          exact hbarriers.waits_closed j k hk e he
      · intro j thread hpresent k hk hown
        simp only [Capture.waits, hwaits]
        have hk' : k < c.presents.length := by
          have := (List.getElem?_eq_some_iff.mp hpresent).1
          simp only [List.length_append, List.length_singleton] at this
          omega
        have hown := (getElem?_concat_eq_some_iff.mp hown).resolve_right fun h => hk'.ne h.1
        rcases getElem?_concat_eq_some_iff.mp hpresent with hpresent | ⟨rfl, rfl⟩
        · rw [if_neg (List.getElem?_eq_some_iff.mp hpresent).1.ne]
          exact hbarriers.waits_own j thread hpresent k hk hown
        · rw [if_pos rfl]
          exact hnamed.own k hown
      · intro thread
        by_cases hsame : thread = presenter
        · subst hsame
          simp
        · simp only [hother hsame]
          intro hthread
          have hthread := hbarriers.named thread hthread
          refine ⟨hthread.ended, fun k hk e he => ?_, fun k hpresent => ?_⟩
          · simp only [Capture.waits, hwaits] at he
            rw [if_neg (hbarriers.ended_lt k (hthread.ended k hk)).ne] at he
            exact hthread.closed k hk e he
          · rcases getElem?_concat_eq_some_iff.mp hpresent with hpresent | ⟨-, hpresenter⟩
            · exact hthread.own k hpresent
            · exact (hsame hpresenter.symm).elim
      · exact Or.inl rfl
      · simp [hquiet]

theorem BarrierInv.endPacket (hbarriers : BarrierInv c) {thread : Nat}
    (hstep : captureStep c (.endPacket thread) = some next) : BarrierInv next := by
  simp only [captureStep] at hstep
  split at hstep
  · case _ present hcall =>
      cases hstep
      have hpresent := hbarriers.presented present thread hcall
      refine hbarriers.setWriter _ _ _ _ (fun k => List.mem_append_left _) (fun k hk => ?_)
        (fun k hk => Or.inl ?_) (by simp) (by simp) hbarriers.exclusive
        (fun other turn seen hinjecting => ?_)
      · rcases List.mem_append.mp hk with hk | hk
        · exact hbarriers.ended_lt k hk
        · rw [List.mem_singleton.mp hk]
          exact (List.getElem?_eq_some_iff.mp hpresent).1
      · rcases hbarriers.ends k thread hk with hended | hsame
        · exact List.mem_append_left _ hended
        · rw [hcall] at hsame
          cases hsame
          simp
      · have hold := hbarriers.naming other turn seen hinjecting
        have hne : other ≠ thread := by
          rintro rfl
          simp [hcall] at hold
        rw [Function.update_of_ne hne]
        exact hold
  · cases hstep

end
end FrameCapture
end Lavatube
