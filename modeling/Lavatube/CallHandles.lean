import Lavatube.Capture

/-!
# The changes that the handles of a call carry

A call writes its handles one after another, and sets the last change of the objects that it
changes in between: the generated functions after each externally synchronised parameter and
once more after the call, the functions that are written by hand where their author put it.
A handle that is written behind the change of its own packet carries that packet, and what
another thread has done to the object before is lost.

* `Access`, `Parameter.printSave`, `ApiCall.accesses` — what a call does, in order.
* `Tracer`, `step` — calls of many threads over `Capture`, with every change that was made.
* `handle_carries_preceding` — which change a handle carries.
* `marksLast_cmdUpdateBuffer2ARM`, `marksLast_cmdUpdateMemory2ARM`, `marksLast_generated` —
  which calls write every handle before they change its object.
-/

namespace Lavatube
namespace CallHandles

open Transition
open Capture (ChangeSource CapturedHandle CapturedPacket)

/-! ## Calls -/

/-- What a call does with the last change of an object: `write_handle` stores it, and
`last_modified = writer.current` sets it. -/
inductive Access where
  | handle (object : Option Nat)
  | modified (object : Option Nat)
deriving DecidableEq, Repr

/-- A handle or an array of handles, among the parameters of a call or the members of a
structure that is passed to it. -/
inductive Parameter where
  | handle (externallySynchronized : Bool) (object : Option Nat)
  | handles (externallySynchronized : Bool) (objects : List (Option Nat))
deriving DecidableEq, Repr

/-- `if (data) data->last_modified = writer.current`. -/
def modifiedIfTracked : Option Nat → List Access
  | some object => [.modified (some object)]
  | none => []

/-- The code of `print_save` for handles.  In an array the pointer is followed without a
check. -/
def Parameter.printSave : Parameter → List Access
  | .handle externallySynchronized object =>
      .handle object :: if externallySynchronized then modifiedIfTracked object else []
  | .handles externallySynchronized objects =>
      objects.flatMap fun object =>
        .handle object :: if externallySynchronized then [.modified object] else []

/-- `write_extension`, and every other sequence of parameters. -/
def printSaveAll (parameters : List Parameter) : List Access :=
  parameters.flatMap Parameter.printSave

/-- The code of `save_add_tracking` for a call that creates objects: `add` makes the packet
their last change.  A call that fails writes no object. -/
def saveCreated : Option Nat → List Access
  | some object => [.modified (some object), .handle (some object)]
  | none => [.handle none]

/-- `write_VkUpdateBufferInfoARM`. -/
def writeUpdateBufferInfoARM (extension : List Parameter) (dstBuffer : Option Nat) :
    List Access :=
  printSaveAll extension ++ [.handle dstBuffer]

/-- `write_VkUpdateMemoryInfoARM`; a device address is not a handle. -/
def writeUpdateMemoryInfoARM (extension : List Parameter) : List Access :=
  printSaveAll extension

/-- `trace_vkCmdUpdateBuffer2ARM`. -/
def traceCmdUpdateBuffer2ARM (commandBuffer : Nat) (extension : List Parameter)
    (dstBuffer : Option Nat) : List Access :=
  .handle (some commandBuffer) :: .modified (some commandBuffer) ::
    (modifiedIfTracked dstBuffer ++ writeUpdateBufferInfoARM extension dstBuffer)

/-- `trace_vkCmdUpdateMemory2ARM`, with the buffer that `find_buffer_by_device_address` has
found. -/
def traceCmdUpdateMemory2ARM (commandBuffer : Nat) (buffer : Option Nat)
    (extension : List Parameter) : List Access :=
  .handle (some commandBuffer) :: .modified (some commandBuffer) ::
    (modifiedIfTracked buffer ++ writeUpdateMemoryInfoARM extension)

/-- A call.  The generated ones have parameters, objects that the call has changed when it
returns (`vkResetFences` and the calls that begin, end or reset a command buffer), and objects
that it creates. -/
inductive ApiCall where
  | generated (parameters : List Parameter) (tracked : List Nat) (created : List (Option Nat))
  | cmdUpdateBuffer2ARM (commandBuffer : Nat) (extension : List Parameter)
      (dstBuffer : Option Nat)
  | cmdUpdateMemory2ARM (commandBuffer : Nat) (buffer : Option Nat)
      (extension : List Parameter)
deriving DecidableEq, Repr

/-- What a call does with the last changes of objects, in order. -/
def ApiCall.accesses : ApiCall → List Access
  | .generated parameters tracked created =>
      printSaveAll parameters ++ tracked.map (fun object => .modified (some object)) ++
        created.flatMap saveCreated
  | .cmdUpdateBuffer2ARM commandBuffer extension dstBuffer =>
      traceCmdUpdateBuffer2ARM commandBuffer extension dstBuffer
  | .cmdUpdateMemory2ARM commandBuffer buffer extension =>
      traceCmdUpdateMemory2ARM commandBuffer buffer extension

/-! ## Calls of many threads -/

/-- The tracer, with the accesses of the packet that each thread has open, and how many of
them it has made.  `changes` has every change of an object with the packet that made it, in
order; the tracer does not keep it. -/
structure Tracer where
  capture : Capture.State := {}
  accesses : Nat → List Access := fun _ => []
  place : Nat → Nat := fun _ => 0
  changes : List (Nat × ChangeSource) := []

/-- `writer.current`. -/
def Tracer.current (s : Tracer) (t : Nat) : ChangeSource :=
  ⟨t, (s.capture.writers t).packet⟩

/-- A thread has made all accesses of its packet. -/
def Tracer.Finished (s : Tracer) (t : Nat) : Prop :=
  (s.accesses t).length ≤ s.place t

instance (s : Tracer) (t : Nat) : Decidable (s.Finished t) :=
  inferInstanceAs (Decidable (_ ≤ _))

/-- What a thread does next: it begins the packet of a call or an update packet, makes the
next access of its packet, or does anything else. -/
inductive Action where
  | beginCall (t : Nat) (call : ApiCall)
  | beginUpdate (t device object : Nat)
  | access (t : Nat)
  | other (action : Capture.Action)
deriving DecidableEq, Repr

/-- Packets are begun and written by the other actions; a packet is complete when its thread
goes on to a barrier or ends it. -/
def Tracer.Permits (s : Tracer) : Capture.Action → Prop
  | .beginCall _ | .beginUpdate _ | .writeHandle _ _ | .modify _ _ => False
  | .activate _ | .push _ => True
  | action => s.Finished (action.thread s.capture)

instance (s : Tracer) (action : Capture.Action) : Decidable (s.Permits action) := by
  unfold Tracer.Permits
  split <;> infer_instance

/-- A packet is begun. -/
def Tracer.begin (s : Tracer) (t : Nat) (accesses : List Access) (capture : Capture.State) :
    Tracer :=
  { s with
    capture := capture
    accesses := Function.update s.accesses t accesses
    place := Function.update s.place t 0 }

/-- An access is made. -/
def Tracer.advance (s : Tracer) (t : Nat) (changes : List (Nat × ChangeSource))
    (capture : Capture.State) : Tracer :=
  { s with
    capture := capture
    place := Function.update s.place t (s.place t + 1)
    changes := s.changes ++ changes }

/-- One action of one thread. -/
def step (s : Tracer) : Action → Option Tracer
  | .beginCall t call =>
      if s.Finished t then
        (Capture.step s.capture (.beginCall t)).map (s.begin t call.accesses)
      else
        none
  | .beginUpdate t device object =>
      if s.Finished t then
        (Capture.step s.capture (.beginUpdate t)).map
          (s.begin t [.handle (some device), .handle (some object)])
      else
        none
  | .access t =>
      match (s.accesses t)[s.place t]? with
      | some (.handle object) =>
          (Capture.step s.capture (.writeHandle t object)).map (s.advance t [])
      | some (.modified (some object)) =>
          (Capture.step s.capture (.modify t object)).map
            (s.advance t [(object, s.current t)])
      | some (.modified none) | none => none
  | .other action =>
      if s.Permits action then
        (Capture.step s.capture action).map fun capture => { s with capture := capture }
      else
        none

/-! ## Which change a handle carries -/

/-- The last change of an object. -/
def lastChange (changes : List (Nat × ChangeSource)) (object : Nat) : Option ChangeSource :=
  ((changes.filter fun change => change.1 = object).getLast?).map Prod.snd

/-- The last change of an object by a packet other than `current`. -/
def precedingChange (changes : List (Nat × ChangeSource)) (object : Nat)
    (current : ChangeSource) : Option ChangeSource :=
  lastChange (changes.filter fun change => change.2 ≠ current) object

/-- From `s` to `next` the handle of an object was written to the packet that thread `t` has
open, with the last change that another packet has made. -/
def CarriesPreceding (s next : Tracer) (t object : Nat) : Prop :=
  ∃ handles source,
    (next.capture.writers t).opened = some (.call (handles ++ [⟨object, some source⟩])) ∧
      precedingChange s.changes object (s.current t) = some source ∧ source ≠ s.current t

/-- The call of thread `t` has changed an object. -/
def Tracer.HasModified (s : Tracer) (t object : Nat) : Prop :=
  .modified (some object) ∈ (s.accesses t).take (s.place t)

instance (s : Tracer) (t object : Nat) : Decidable (s.HasModified t object) :=
  inferInstanceAs (Decidable (_ ∈ _))

/-- No other packet has changed the object behind the change of the open one. -/
def Undisturbed (s : Tracer) (t object : Nat) : Prop :=
  ∀ before after, s.changes = before ++ (object, s.current t) :: after →
    ∀ change ∈ after, change.1 = object → change.2 = s.current t

/-- The packet of a change has been ended, or is still open. -/
def Recorded (s : Capture.State) (source : ChangeSource) : Prop :=
  source.packet < (s.writers source.thread).packet ∨
    source.packet = (s.writers source.thread).packet ∧
      (s.writers source.thread).opened.isSome = true

section

variable {s next : Capture.State} {t : Nat} {content : CapturedPacket} {source : ChangeSource}
variable {action : Capture.Action}

theorem Recorded.le (hrecorded : Recorded s source) :
    source.packet ≤ (s.writers source.thread).packet := by
  rcases hrecorded with hlt | ⟨heq, -⟩
  · exact hlt.le
  · exact heq.le

theorem Recorded.quiet (hrecorded : Recorded s source) (hquiet : Capture.Quiet s next) :
    Recorded next source := by
  rw [Recorded, hquiet.packet, hquiet.opened]
  exact hrecorded

/-- A packet that is ended has a number below that of the next one. -/
theorem Recorded.lt_ended (hrecorded : Recorded s source) : source.packet <
    ((Capture.endPacket s source.thread).writers source.thread).packet := by
  rw [Capture.endPacket_self.2.2.1]
  rcases hrecorded with hlt | ⟨heq, hopened⟩
  · exact hlt.trans_le (Nat.le_add_right _ _)
  · obtain ⟨content, hcontent⟩ := Option.isSome_iff_exists.mp hopened
    rw [hcontent, heq]
    exact Nat.lt_succ_self _

theorem Recorded.ended (hrecorded : Recorded s source) (t : Nat) :
    Recorded (Capture.endPacket s t) source := by
  by_cases ht : source.thread = t
  · exact .inl (ht ▸ hrecorded.lt_ended)
  · rw [Recorded, Capture.endPacket_frame.2.2 _ ht]
    exact hrecorded

theorem Recorded.setOpened (hrecorded : Recorded s source) :
    Recorded (s.setWriter t { s.writers t with opened := some content }) source := by
  by_cases ht : source.thread = t
  · rw [Recorded, ht, Capture.setWriter_self]
    exact hrecorded.imp (ht ▸ ·) fun h => ⟨ht ▸ h.1, rfl⟩
  · rw [Recorded, Capture.setWriter_of_ne ht]
    exact hrecorded

theorem Recorded.begun (hrecorded : Recorded s source)
    (hbegin : Capture.beginPacket s t content = some next) : Recorded next source := by
  obtain ⟨-, rfl⟩ := Capture.beginPacket_cases hbegin
  exact (hrecorded.ended t).setOpened

/-- **One action of a thread, and a change.** -/
theorem recorded_step (hwriters : Capture.WriterInv s)
    (hstep : Capture.step s action = some next) (hrecorded : Recorded s source) :
    Recorded next source := by
  obtain ⟨before, after, hbefore, hchange, hafter⟩ :=
    Capture.act_change hwriters.fresh (Capture.step_cases hstep).1
  refine Recorded.quiet ?_ hafter
  have hrecorded := hrecorded.quiet hbefore
  cases hchange with
  | silent => exact hrecorded
  | ended _ t => exact hrecorded.ended t
  | begun _ _ hbegin => exact hrecorded.begun hbegin
  | injected _ _ hinject =>
      obtain ⟨-, begun, hbegin, rfl⟩ := Capture.inject_cases hinject
      exact (hrecorded.begun hbegin).ended _
  | handle => exact hrecorded.setOpened
  | modified => exact hrecorded

/-- Nothing but `modify` sets the last change of an object. -/
theorem lastModified_step (hwriters : Capture.WriterInv s)
    (hstep : Capture.step s action = some next) (hmodify : ∀ t object, action ≠ .modify t object) :
    next.lastModified = s.lastModified := by
  obtain ⟨before, after, hbefore, hchange, hafter⟩ :=
    Capture.act_change hwriters.fresh (Capture.step_cases hstep).1
  rw [hafter.lastModified, ← hbefore.lastModified]
  cases hchange with
  | silent | handle => rfl
  | ended => exact Capture.endPacket_frame.2.1
  | begun _ _ hbegin => exact (Capture.beginPacket_frame hbegin).2.1
  | injected _ _ hinject => exact (Capture.inject_frame hinject).2.1
  | modified t object => exact absurd rfl (hmodify t object)

/-- Another thread leaves the number of the packet alone. -/
theorem packet_step (hstep : Capture.step s action = some next) (ht : t ≠ action.thread s) :
    (next.writers t).packet = (s.writers t).packet := by
  rcases Capture.act_others (Capture.step_cases hstep).1 ht with hsame | ⟨-, -, hpushed⟩
  · rw [hsame]
  · rw [hpushed]

end

section

variable {s next : Tracer} {t object : Nat} {action : Action}

/-! ### What an action changes -/

/-- **What an action does.**  A packet is begun with the accesses of its call, the next access
is made, or neither happens. -/
inductive Change (s : Tracer) : Tracer → Prop
  | begun {capture : Capture.State} (t : Nat) (accesses : List Access)
      (hfinished : s.Finished t)
      (hbegin : Capture.step s.capture (.beginCall t) = some capture ∨
        Capture.step s.capture (.beginUpdate t) = some capture) :
      Change s (s.begin t accesses capture)
  | handle {capture : Capture.State} (t : Nat) (object : Option Nat)
      (haccess : (s.accesses t)[s.place t]? = some (.handle object))
      (hwrite : Capture.step s.capture (.writeHandle t object) = some capture) :
      Change s (s.advance t [] capture)
  | modified {capture : Capture.State} (t object : Nat)
      (haccess : (s.accesses t)[s.place t]? = some (.modified (some object)))
      (hmodify : Capture.step s.capture (.modify t object) = some capture) :
      Change s (s.advance t [(object, s.current t)] capture)
  | other {capture : Capture.State} (action : Capture.Action) (hpermits : s.Permits action)
      (hother : Capture.step s.capture action = some capture) :
      Change s { s with capture := capture }

theorem step_change (hstep : step s action = some next) : Change s next := by
  cases action with
  | beginCall t call =>
      simp only [step, Option.ite_none_right_eq_some, Option.map_eq_some_iff] at hstep
      obtain ⟨hfinished, capture, hbegin, rfl⟩ := hstep
      exact .begun t _ hfinished (.inl hbegin)
  | beginUpdate t device object =>
      simp only [step, Option.ite_none_right_eq_some, Option.map_eq_some_iff] at hstep
      obtain ⟨hfinished, capture, hbegin, rfl⟩ := hstep
      exact .begun t _ hfinished (.inr hbegin)
  | access t =>
      simp only [step] at hstep
      split at hstep
      · case _ object haccess =>
          obtain ⟨capture, hwrite, rfl⟩ := Option.map_eq_some_iff.mp hstep
          exact .handle t object haccess hwrite
      · case _ object haccess =>
          obtain ⟨capture, hmodify, rfl⟩ := Option.map_eq_some_iff.mp hstep
          exact .modified t object haccess hmodify
      · cases hstep
      · cases hstep
  | other action =>
      simp only [step, Option.ite_none_right_eq_some, Option.map_eq_some_iff] at hstep
      obtain ⟨hpermits, capture, hother, rfl⟩ := hstep
      exact .other action hpermits hother

/-! ### What is known of the changes -/

/-- The changes, the objects and the packets that are open. -/
structure Inv (s : Tracer) : Prop where
  writers : Capture.WriterInv s.capture
  recorded : ∀ change ∈ s.changes, Recorded s.capture change.2
  last : ∀ object, s.capture.lastModified object = lastChange s.changes object
  own : ∀ t object, (object, s.current t) ∈ s.changes → s.HasModified t object
  modified : ∀ t object, ¬ s.Finished t → s.HasModified t object →
    (object, s.current t) ∈ s.changes

theorem inv_init : Inv {} :=
  ⟨Capture.writerInv_init, by simp, fun _ => rfl, by simp, by simp [Tracer.HasModified]⟩

theorem lastChange_append (changes : List (Nat × ChangeSource)) (changed : Nat)
    (source : ChangeSource) (object : Nat) :
    lastChange (changes ++ [(changed, source)]) object =
      if object = changed then some source else lastChange changes object := by
  by_cases hobject : object = changed
  · subst hobject
    simp [lastChange]
  · simp [lastChange, hobject, Ne.symm hobject]

/-- What is open in both states was open with the same accesses. -/
theorem Inv.own_later (hinv : Inv s) (hlater : Capture.Later s.capture next.capture)
    (hmem : (object, next.current t) ∈ s.changes) :
    next.current t = s.current t ∧ s.HasModified t object := by
  have hle : (next.capture.writers t).packet ≤ (s.capture.writers t).packet :=
    (hinv.recorded _ hmem).le
  have hsame : next.current t = s.current t := by
    rw [Tracer.current, Tracer.current, hle.antisymm (hlater.packet t)]
  exact ⟨hsame, hinv.own t object (hsame ▸ hmem)⟩

theorem advance_finished {changes : List (Nat × ChangeSource)} {capture : Capture.State} {i : Nat}
    (hunfinished : ¬ (s.advance t changes capture).Finished i) : ¬ s.Finished i := by
  intro hfinished
  refine hunfinished ?_
  by_cases hi : i = t
  · subst hi
    simp only [Tracer.Finished, Tracer.advance, Function.update_self] at hfinished ⊢
    omega
  · simpa only [Tracer.Finished, Tracer.advance, Function.update_of_ne hi] using hfinished

/-- What has been changed when an access has been made. -/
theorem advance_hasModified {changes : List (Nat × ChangeSource)} {capture : Capture.State}
    {access : Access} {i : Nat} (haccess : (s.accesses t)[s.place t]? = some access) :
    (s.advance t changes capture).HasModified i object ↔
      s.HasModified i object ∨ i = t ∧ access = .modified (some object) := by
  by_cases hi : i = t
  · subst hi
    simp [Tracer.HasModified, Tracer.advance, List.take_add_one, haccess, eq_comm]
  · simp [Tracer.HasModified, Tracer.advance, hi]

/-- An access leaves the numbers of the packets alone. -/
theorem access_current {capture : Capture.State} {access : Capture.Action}
    (hstep : Capture.step s.capture access = some capture)
    (haccess : ∃ t object, access = .writeHandle t object ∨
      ∃ changed, access = .modify t changed) (i : Nat) :
    (capture.writers i).packet = (s.capture.writers i).packet := by
  by_cases hi : i = access.thread s.capture
  · have hact := (Capture.step_cases hstep).1
    obtain ⟨t, object, rfl | ⟨changed, rfl⟩⟩ := haccess
    · obtain ⟨_, _, -, -, rfl⟩ := Capture.writeHandle_cases hact
      rw [hi, Capture.Action.thread, Capture.setWriter_self]
    · obtain ⟨-, rfl⟩ := Capture.modify_cases hact
      rfl
  · exact packet_step hstep hi

/-- A new packet has a number that no change has. -/
theorem begin_lt {capture : Capture.State} {source : ChangeSource}
    (hbegin : Capture.step s.capture (.beginCall source.thread) = some capture ∨
      Capture.step s.capture (.beginUpdate source.thread) = some capture)
    (hrecorded : Recorded s.capture source) :
    source.packet < (capture.writers source.thread).packet := by
  rcases hbegin with hbegin | hbegin
  · obtain ⟨begun, hbegun, rfl⟩ := Option.map_eq_some_iff.mp (Capture.step_cases hbegin).1
    obtain ⟨-, rfl⟩ := Capture.beginPacket_cases hbegun
    rw [Capture.setPhase, Capture.setWriter_self, Capture.setWriter_self]
    exact hrecorded.lt_ended
  · obtain ⟨-, rfl⟩ := Capture.beginPacket_cases (Capture.step_cases hbegin).1
    rw [Capture.setWriter_self]
    exact hrecorded.lt_ended

/-- **A packet is begun.** -/
theorem Inv.begun (hinv : Inv s) {capture : Capture.State} (accesses : List Access)
    (hbegin : Capture.step s.capture (.beginCall t) = some capture ∨
      Capture.step s.capture (.beginUpdate t) = some capture) :
    Inv (s.begin t accesses capture) := by
  -- a call and an update begin in the same way
  obtain ⟨began, hthread, hmodify, hstep⟩ : ∃ began : Capture.Action,
      began.thread s.capture = t ∧ (∀ t object, began ≠ .modify t object) ∧
        Capture.step s.capture began = some capture := by
    rcases hbegin with hbegin | hbegin
    · exact ⟨_, rfl, by simp, hbegin⟩
    · exact ⟨_, rfl, by simp, hbegin⟩
  constructor
  case writers => exact Capture.step_writerInv hinv.writers hstep
  case recorded =>
    intro change hmem
    exact recorded_step hinv.writers hstep (hinv.recorded change hmem)
  case last =>
    intro object
    exact (congrFun (lastModified_step hinv.writers hstep hmodify) object).trans
      (hinv.last object)
  case own =>
    intro i object hmem
    -- the packet of the thread is new: nothing has been changed in it
    by_cases hi : i = t
    · subst hi
      exact absurd (begin_lt hbegin (hinv.recorded _ hmem)) (lt_irrefl _)
    · simpa only [Tracer.HasModified, Tracer.begin, Function.update_of_ne hi] using
        (hinv.own_later (Capture.step_later hinv.writers hstep) hmem).2
  case modified =>
    intro i object hunfinished hmodified
    by_cases hi : i = t
    · subst hi
      simp [Tracer.HasModified, Tracer.begin] at hmodified
    · simp only [Tracer.Finished, Tracer.HasModified, Tracer.begin, Tracer.current,
        Function.update_of_ne hi] at hunfinished hmodified ⊢
      rw [packet_step hstep (by rwa [hthread])]
      exact hinv.modified i object hunfinished hmodified

/-- **The next access is made.** -/
theorem Inv.handle (hinv : Inv s) {capture : Capture.State} {written : Option Nat}
    (haccess : (s.accesses t)[s.place t]? = some (.handle written))
    (hwrite : Capture.step s.capture (.writeHandle t written) = some capture) :
    Inv (s.advance t [] capture) := by
  have hcurrent : ∀ i, (s.advance t [] capture).current i = s.current i := fun i => by
    rw [Tracer.current, Tracer.current]
    exact congrArg _ (access_current hwrite ⟨t, written, .inl rfl⟩ i)
  constructor
  case writers => exact Capture.step_writerInv hinv.writers hwrite
  case recorded =>
    intro change hmem
    rw [Tracer.advance, List.append_nil] at hmem
    exact recorded_step hinv.writers hwrite (hinv.recorded change hmem)
  case last =>
    intro object
    rw [Tracer.advance, List.append_nil]
    exact (congrFun (lastModified_step hinv.writers hwrite (by simp)) object).trans
      (hinv.last object)
  case own =>
    intro i object hmem
    rw [hcurrent, Tracer.advance, List.append_nil] at hmem
    exact (advance_hasModified haccess).mpr (.inl (hinv.own i object hmem))
  case modified =>
    intro i object hunfinished hmodified
    rw [hcurrent, Tracer.advance, List.append_nil]
    -- the access that is passed was no change
    rcases (advance_hasModified haccess).mp hmodified with hold | ⟨-, hwrong⟩
    · exact hinv.modified i object (advance_finished hunfinished) hold
    · cases hwrong

/-- **A change is made.** -/
theorem Inv.change (hinv : Inv s) {capture : Capture.State} {changed : Nat}
    (haccess : (s.accesses t)[s.place t]? = some (.modified (some changed)))
    (hmodify : Capture.step s.capture (.modify t changed) = some capture) :
    Inv (s.advance t [(changed, s.current t)] capture) := by
  have hcurrent : ∀ i,
      (s.advance t [(changed, s.current t)] capture).current i = s.current i := fun i => by
    rw [Tracer.current, Tracer.current]
    exact congrArg _ (access_current hmodify ⟨t, none, .inr ⟨changed, rfl⟩⟩ i)
  obtain ⟨hopened, hcapture⟩ := Capture.modify_cases (Capture.step_cases hmodify).1
  constructor
  case writers => exact Capture.step_writerInv hinv.writers hmodify
  case recorded =>
    intro change hmem
    refine recorded_step hinv.writers hmodify ?_
    -- the change is recorded with the open packet of its thread
    rcases List.mem_append.mp hmem with hold | hnew
    · exact hinv.recorded change hold
    · rw [List.mem_singleton.mp hnew]
      exact .inr ⟨rfl, hopened⟩
  case last =>
    intro object
    rw [Tracer.advance, lastChange_append, ← hinv.last, hcapture]
    exact Function.update_apply _ _ _ _
  case own =>
    intro i object hmem
    rw [hcurrent] at hmem
    refine (advance_hasModified haccess).mpr ?_
    rcases List.mem_append.mp hmem with hold | hnew
    · exact .inl (hinv.own i object hold)
    · cases List.mem_singleton.mp hnew
      exact .inr ⟨rfl, rfl⟩
  case modified =>
    intro i object hunfinished hmodified
    rw [hcurrent]
    refine List.mem_append.mpr ?_
    rcases (advance_hasModified haccess).mp hmodified with hold | ⟨rfl, hnew⟩
    · exact .inl (hinv.modified i object (advance_finished hunfinished) hold)
    · cases hnew
      exact .inr (List.mem_singleton.mpr rfl)

/-- A thread in a packet does nothing that changes its number. -/
theorem permits_packet {capture : Capture.State} {other : Capture.Action}
    (hpermits : s.Permits other) (hstep : Capture.step s.capture other = some capture)
    (hunfinished : ¬ s.Finished t) :
    (capture.writers t).packet = (s.capture.writers t).packet := by
  by_cases ht : t = other.thread s.capture
  · subst ht
    have hact := (Capture.step_cases hstep).1
    cases other with
    | activate t =>
        cases hact
        rw [Capture.Action.thread, Capture.setWriter_self]
    | push t =>
        obtain ⟨-, rfl⟩ := Capture.push_cases hact
        exact Capture.quiet_push.packet _
    | beginCall | beginUpdate | writeHandle | modify => exact hpermits.elim
    | _ => exact absurd hpermits hunfinished
  · exact packet_step hstep ht

/-- **Anything else.** -/
theorem Inv.other (hinv : Inv s) {capture : Capture.State} {other : Capture.Action}
    (hpermits : s.Permits other) (hstep : Capture.step s.capture other = some capture) :
    Inv { s with capture := capture } := by
  constructor
  case writers => exact Capture.step_writerInv hinv.writers hstep
  case recorded =>
    intro change hmem
    exact recorded_step hinv.writers hstep (hinv.recorded change hmem)
  case last =>
    intro object
    refine (congrFun (lastModified_step hinv.writers hstep ?_) object).trans (hinv.last object)
    rintro t changed rfl
    exact hpermits
  case own =>
    intro i object hmem
    exact (hinv.own_later (Capture.step_later hinv.writers hstep) hmem).2
  case modified =>
    intro i object hunfinished hmodified
    rw [Tracer.current, permits_packet hpermits hstep hunfinished]
    exact hinv.modified i object hunfinished hmodified

/-- **One action of any thread.** -/
theorem Inv.step (hinv : Inv s) (hstep : step s action = some next) : Inv next := by
  cases step_change hstep with
  | begun t accesses _ hbegin => exact hinv.begun accesses hbegin
  | handle t object haccess hwrite => exact hinv.handle haccess hwrite
  | modified t object haccess hmodify => exact hinv.change haccess hmodify
  | other action hpermits hother => exact hinv.other hpermits hother

theorem exec_inv {actions : List Action} (hexec : exec CallHandles.step {} actions = some s) :
    Inv s :=
  exec_invariant_of_step (fun _ _ _ hinv hstep => Inv.step hinv hstep) inv_init hexec

/-! ### The handles -/

theorem mem_of_lastChange {changes : List (Nat × ChangeSource)} {source : ChangeSource}
    (hlast : lastChange changes object = some source) : (object, source) ∈ changes := by
  obtain ⟨⟨changed, _⟩, hget, rfl⟩ := Option.map_eq_some_iff.mp hlast
  have hmem := List.mem_of_getLast? hget
  simp only [List.mem_filter, decide_eq_true_eq] at hmem
  obtain ⟨hmem, rfl⟩ := hmem
  exact hmem

/-- Without a change of its own, the last change is that of another packet. -/
theorem precedingChange_of_not_mem {changes : List (Nat × ChangeSource)} {current : ChangeSource}
    (hmem : (object, current) ∉ changes) :
    precedingChange changes object current = lastChange changes object := by
  rw [precedingChange, lastChange, lastChange, List.filter_filter]
  congr 2
  refine List.filter_congr fun change hchange => ?_
  by_cases hobject : change.1 = object
  · have hother : change.2 ≠ current := by
      rintro rfl
      exact hmem (hobject ▸ hchange)
    simp [hother]
  · simp [hobject]

/-- An undisturbed change of the packet is the last change of the object. -/
theorem lastChange_of_undisturbed (hundisturbed : Undisturbed s t object)
    (hmem : (object, s.current t) ∈ s.changes) :
    lastChange s.changes object = some (s.current t) := by
  obtain ⟨before, after, hsplit⟩ := List.append_of_mem hmem
  have hafter := hundisturbed before after hsplit
  have hlast : ∀ change ∈ ((object, s.current t) :: after).filter fun change =>
      change.1 = object, change.2 = s.current t := by
    intro change hchange
    simp only [List.mem_filter, List.mem_cons, decide_eq_true_eq] at hchange
    rcases hchange with ⟨rfl | hchange, hobject⟩
    · rfl
    · exact hafter change hchange hobject
  have hne : ((object, s.current t) :: after).filter (fun change => change.1 = object) ≠ [] := by
    simp
  rw [lastChange, hsplit, List.filter_append, List.getLast?_append,
    List.getLast?_eq_some_getLast hne, Option.some_or, Option.map_some]
  exact congrArg some (hlast _ (List.getLast_mem hne))

/-- What `write_handle` writes of an object. -/
theorem access_handle (haccess : (s.accesses t)[s.place t]? = some (.handle (some object)))
    (hstep : step s (.access t) = some next) : ∃ handles source,
      (next.capture.writers t).opened = some (.call (handles ++ [⟨object, some source⟩])) ∧
        s.capture.lastModified object = some source := by
  simp only [step, haccess] at hstep
  obtain ⟨capture, hwrite, rfl⟩ := Option.map_eq_some_iff.mp hstep
  obtain ⟨handles, handle, -, hhandle, rfl⟩ :=
    Capture.writeHandle_cases (Capture.step_cases hwrite).1
  obtain ⟨source, hsource, rfl⟩ := Option.map_eq_some_iff.mp hhandle
  exact ⟨handles, source, by rw [Tracer.advance, Capture.setWriter_self], hsource⟩

/-- The handle that was written is the one that carries the change. -/
theorem CarriesPreceding.source_ne {handles : List CapturedHandle} {source : ChangeSource}
    (hcarries : CarriesPreceding s next t object)
    (hopened : (next.capture.writers t).opened =
      some (.call (handles ++ [⟨object, some source⟩]))) : source ≠ s.current t := by
  obtain ⟨others, preceding, hothers, -, hne⟩ := hcarries
  have hsame : handles ++ [⟨object, some source⟩] = others ++ [⟨object, some preceding⟩] := by
    rw [hopened] at hothers
    injection hothers with hcall
    injection hcall
  have hlasts := congrArg List.getLast? hsame
  have hsource : source = preceding := by simpa using hlasts
  rw [hsource]
  exact hne

/-- **A handle carries the change that precedes its call**, whenever the call has not changed
the object before it writes the handle; and only then, if no other packet changes the object
in between. -/
theorem handle_carries_preceding {actions : List Action}
    (hexec : exec step {} actions = some s)
    (haccess : (s.accesses t)[s.place t]? = some (.handle (some object)))
    (hstep : step s (.access t) = some next) :
    (¬ s.HasModified t object → CarriesPreceding s next t object) ∧
      (Undisturbed s t object → CarriesPreceding s next t object →
        ¬ s.HasModified t object) := by
  have hinv := exec_inv hexec
  obtain ⟨handles, source, hopened, hsource⟩ := access_handle haccess hstep
  have hlast := (hinv.last object).symm.trans hsource
  constructor
  · intro hmodified
    have hmem : (object, s.current t) ∉ s.changes := fun hmem =>
      hmodified (hinv.own t object hmem)
    refine ⟨handles, source, hopened, ?_, ?_⟩
    · rw [precedingChange_of_not_mem hmem, hlast]
    · rintro rfl
      exact hmem (mem_of_lastChange hlast)
  · intro hundisturbed hcarries hmodified
    have hunfinished : ¬ s.Finished t :=
      not_le.mpr (List.getElem?_eq_some_iff.mp haccess).1
    have hown := lastChange_of_undisturbed hundisturbed
      (hinv.modified t object hunfinished hmodified)
    rw [hlast] at hown
    exact hcarries.source_ne hopened (Option.some.inj hown)

/-- Thread 0 creates objects 10 and 20, and thread 1 changes object 20. -/
def changedByThread1 : List Action :=
  [.other (.makeWriter true), .other (.makeWriter true), .other (.enter 0 false),
    .other (.checkPending 0), .beginCall 0 (.generated [] [] [some 10, some 20]), .access 0,
    .access 0, .access 0, .access 0, .other (.endPacket 0), .other (.enter 1 false),
    .other (.checkPending 1), .beginCall 1 (.generated [.handle true (some 20)] [] []),
    .access 1, .access 1, .other (.endPacket 1), .other (.enter 0 false),
    .other (.checkPending 0)]

theorem handle_carries_preceding_generated : ∃ s next,
    exec step {} (changedByThread1 ++
      [Action.beginCall 0 (.generated [.handle true (some 20)] [] [])]) = some s ∧
    step s (.access 0) = some next ∧ CarriesPreceding s next 0 20 := by
  obtain ⟨s, next, hexec, haccess, hstep, hmodified⟩ : ∃ s next,
      exec step {} (changedByThread1 ++
        [Action.beginCall 0 (.generated [.handle true (some 20)] [] [])]) = some s ∧
      (s.accesses 0)[s.place 0]? = some (.handle (some 20)) ∧
      step s (.access 0) = some next ∧ ¬ s.HasModified 0 20 :=
    ⟨_, _, rfl, rfl, rfl, by decide⟩
  exact ⟨s, next, hexec, hstep, (handle_carries_preceding hexec haccess hstep).1 hmodified⟩

/-- `vkCmdUpdateBuffer2ARM` of thread 0 writes the handle of its buffer with its own packet,
which nobody waits for, in place of the one of thread 1. -/
theorem cmdUpdateBuffer2ARM_loses_change : ∃ s next handles,
    exec step {} (changedByThread1 ++
      [Action.beginCall 0 (.cmdUpdateBuffer2ARM 10 [] (some 20)), .access 0, .access 0,
        .access 0]) = some s ∧
    (s.accesses 0)[s.place 0]? = some (.handle (some 20)) ∧
    step s (.access 0) = some next ∧
    precedingChange s.changes 20 (s.current 0) = some ⟨1, 1⟩ ∧
    (next.capture.writers 0).opened = some (.call (handles ++ [⟨20, some (s.current 0)⟩])) ∧
    (CapturedHandle.stored ⟨20, some (s.current 0)⟩).Own 0 ∧
    ¬ CarriesPreceding s next 0 20 := by
  obtain ⟨s, next, hexec, haccess, hstep, hpreceding, hopened, hown⟩ : ∃ s next,
      exec step {} (changedByThread1 ++
        [Action.beginCall 0 (.cmdUpdateBuffer2ARM 10 [] (some 20)), .access 0, .access 0,
          .access 0]) = some s ∧
      (s.accesses 0)[s.place 0]? = some (.handle (some 20)) ∧
      step s (.access 0) = some next ∧
      precedingChange s.changes 20 (s.current 0) = some ⟨1, 1⟩ ∧
      (next.capture.writers 0).opened =
        some (.call ([⟨10, some ⟨0, 1⟩⟩] ++ [⟨20, some (s.current 0)⟩])) ∧
      (CapturedHandle.stored ⟨20, some (s.current 0)⟩).Own 0 :=
    ⟨_, _, rfl, rfl, rfl, by decide, rfl, by decide⟩
  exact ⟨s, next, _, hexec, haccess, hstep, hpreceding, hopened, hown,
    fun hcarries => hcarries.source_ne hopened rfl⟩

/-! ## Which calls write first -/

/-- No object is changed before its handle is written. -/
def MarksLast (accesses : List Access) : Prop :=
  accesses.Pairwise fun first second =>
    ∀ object, first = .modified (some object) → second ≠ .handle (some object)

theorem MarksLast.not_hasModified (hmarks : MarksLast (s.accesses t))
    (haccess : (s.accesses t)[s.place t]? = some (.handle (some object))) :
    ¬ s.HasModified t object := by
  intro hmodified
  obtain ⟨hplace, hget⟩ := List.getElem?_eq_some_iff.mp haccess
  rw [← List.take_append_drop (s.place t) (s.accesses t), MarksLast,
    List.pairwise_append] at hmarks
  refine hmarks.2.2 _ hmodified (.handle (some object)) ?_ object rfl rfl
  rw [List.drop_eq_getElem_cons hplace, hget]
  exact List.mem_cons_self

/-- Objects that a parameter names. -/
def Parameter.objects : Parameter → List (Option Nat)
  | .handle _ object => [object]
  | .handles _ objects => objects

/-- No object is named twice; a null handle may be. -/
def Distinct (objects : List (Option Nat)) : Prop :=
  objects.Pairwise fun first second => ∀ object, first = some object → second ≠ some object

theorem mem_modifiedIfTracked {access : Access} {tracked : Option Nat} :
    access ∈ modifiedIfTracked tracked ↔
      ∃ object, tracked = some object ∧ access = .modified (some object) := by
  cases tracked with
  | none => simp [modifiedIfTracked]
  | some object => simp [modifiedIfTracked]

theorem Parameter.handle_mem {parameter : Parameter} :
    .handle (some object) ∈ parameter.printSave ↔ some object ∈ parameter.objects := by
  cases parameter with
  | handle externallySynchronized written =>
      cases externallySynchronized <;>
        simp [Parameter.printSave, Parameter.objects, mem_modifiedIfTracked]
  | handles externallySynchronized written =>
      cases externallySynchronized <;> simp [Parameter.printSave, Parameter.objects]

theorem Parameter.modified_mem {parameter : Parameter}
    (hmem : .modified (some object) ∈ parameter.printSave) :
    some object ∈ parameter.objects := by
  cases parameter with
  | handle externallySynchronized written =>
      cases externallySynchronized with
      | false => simp [Parameter.printSave] at hmem
      | true =>
          simpa [Parameter.printSave, Parameter.objects, mem_modifiedIfTracked, eq_comm]
            using hmem
  | handles externallySynchronized written =>
      cases externallySynchronized with
      | false => simp [Parameter.printSave] at hmem
      | true => simpa [Parameter.printSave, Parameter.objects] using hmem

/-- A handle may be written in front. -/
theorem marksLast_handle_cons {written : Option Nat} {accesses : List Access} :
    MarksLast (.handle written :: accesses) ↔ MarksLast accesses := by
  simp [MarksLast]

theorem marksLast_modified_cons {accesses : List Access} :
    MarksLast (.modified (some object) :: accesses) ↔
      .handle (some object) ∉ accesses ∧ MarksLast accesses := by
  simp only [MarksLast, List.pairwise_cons]
  refine and_congr_left' ⟨fun hrest hmem => hrest _ hmem object rfl rfl, ?_⟩
  rintro hmem access haccess _ ⟨⟩ rfl
  exact hmem haccess

theorem marksLast_modifiedIfTracked_append {tracked : Option Nat} {accesses : List Access} :
    MarksLast (modifiedIfTracked tracked ++ accesses) ↔
      (∀ object, tracked = some object → .handle (some object) ∉ accesses) ∧
        MarksLast accesses := by
  cases tracked with
  | none => simp [modifiedIfTracked]
  | some object => simp [modifiedIfTracked, marksLast_modified_cons]

theorem marksLast_append {front back : List Access} : MarksLast (front ++ back) ↔
    MarksLast front ∧ MarksLast back ∧
      ∀ object, .modified (some object) ∈ front → .handle (some object) ∉ back := by
  rw [MarksLast, List.pairwise_append]
  refine and_congr_right' (and_congr_right' ⟨fun hcross object hfront hback =>
    hcross _ hfront _ hback object rfl rfl, ?_⟩)
  rintro hcross _ hfront _ hback object rfl rfl
  exact hcross object hfront hback

/-- The handles of one parameter are written first, if it does not name an object twice. -/
theorem marksLast_printSave {parameter : Parameter} (hdistinct : Distinct parameter.objects) :
    MarksLast parameter.printSave := by
  cases parameter with
  | handle externallySynchronized written =>
      cases externallySynchronized with
      | false => simp [Parameter.printSave, MarksLast]
      | true =>
          rw [Parameter.printSave, if_pos rfl, marksLast_handle_cons,
            ← List.append_nil (modifiedIfTracked _), marksLast_modifiedIfTracked_append]
          simp [MarksLast]
  | handles externallySynchronized objects =>
      cases externallySynchronized with
      | false =>
          rw [MarksLast]
          refine List.pairwise_of_forall_mem_list fun first hfirst second _ object hmodified => ?_
          simp [Parameter.printSave, hmodified] at hfirst
      | true =>
          -- one object after the other: its own handle comes in front of its change
          induction objects with
          | nil => simp [Parameter.printSave, MarksLast]
          | cons written objects ih =>
              obtain ⟨hfirst, hrest⟩ := List.pairwise_cons.mp hdistinct
              have htail := ih hrest
              simp only [Parameter.printSave, List.flatMap_cons, if_true, List.cons_append,
                List.nil_append, marksLast_handle_cons] at htail ⊢
              cases written with
              | none => simpa [MarksLast] using htail
              | some object =>
                  refine marksLast_modified_cons.mpr ⟨fun hmem => ?_, htail⟩
                  have hnamed : some object ∈ (Parameter.handles true objects).objects :=
                    Parameter.handle_mem.mp hmem
                  exact hfirst _ hnamed object rfl rfl

/-- So are those of all parameters. -/
theorem marksLast_printSaveAll {parameters : List Parameter}
    (hdistinct : Distinct (parameters.flatMap Parameter.objects)) :
    MarksLast (printSaveAll parameters) := by
  induction parameters with
  | nil => simp [printSaveAll, MarksLast]
  | cons parameter parameters ih =>
      rw [List.flatMap_cons, Distinct, List.pairwise_append] at hdistinct
      obtain ⟨hfirst, hrest, hcross⟩ := hdistinct
      rw [printSaveAll, List.flatMap_cons, marksLast_append]
      refine ⟨marksLast_printSave hfirst, ih hrest, fun object hmodified hhandle => ?_⟩
      obtain ⟨other, hother, hwritten⟩ := List.mem_flatMap.mp hhandle
      exact hcross _ (Parameter.modified_mem hmodified) _
        (List.mem_flatMap.mpr ⟨other, hother, Parameter.handle_mem.mp hwritten⟩) object rfl rfl

/-- **A generated call** that creates no object and names none twice. -/
theorem marksLast_generated {parameters : List Parameter} (tracked : List Nat)
    (hdistinct : Distinct (parameters.flatMap Parameter.objects)) :
    MarksLast (ApiCall.generated parameters tracked []).accesses := by
  rw [ApiCall.accesses, List.flatMap_nil, List.append_nil, marksLast_append]
  refine ⟨marksLast_printSaveAll hdistinct, ?_, by simp⟩
  refine List.pairwise_of_forall_mem_list fun first _ second hsecond object _ hhandle => ?_
  simp [hhandle] at hsecond

/-- **`vkCmdUpdateBuffer2ARM`** writes first only without a buffer. -/
theorem marksLast_cmdUpdateBuffer2ARM {commandBuffer : Nat} {extension : List Parameter}
    {dstBuffer : Option Nat} :
    MarksLast (ApiCall.cmdUpdateBuffer2ARM commandBuffer extension dstBuffer).accesses ↔
      dstBuffer = none ∧ .handle (some commandBuffer) ∉ printSaveAll extension ∧
        MarksLast (printSaveAll extension) := by
  rw [ApiCall.accesses, traceCmdUpdateBuffer2ARM, marksLast_handle_cons, marksLast_modified_cons,
    marksLast_modifiedIfTracked_append, writeUpdateBufferInfoARM, marksLast_append]
  cases dstBuffer with
  | none => simp [mem_modifiedIfTracked, MarksLast]
  | some buffer => simp

/-- **`vkCmdUpdateMemory2ARM`** does, if its extensions do not name what it changes. -/
theorem marksLast_cmdUpdateMemory2ARM {commandBuffer : Nat} {buffer : Option Nat}
    {extension : List Parameter} :
    MarksLast (ApiCall.cmdUpdateMemory2ARM commandBuffer buffer extension).accesses ↔
      .handle (some commandBuffer) ∉ printSaveAll extension ∧
        (∀ object, buffer = some object → .handle (some object) ∉ printSaveAll extension) ∧
          MarksLast (printSaveAll extension) := by
  rw [ApiCall.accesses, traceCmdUpdateMemory2ARM, marksLast_handle_cons, marksLast_modified_cons,
    marksLast_modifiedIfTracked_append, writeUpdateMemoryInfoARM, List.mem_append]
  simp [mem_modifiedIfTracked]

end

end CallHandles
end Lavatube
