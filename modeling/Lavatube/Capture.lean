import Lavatube.Replay

/-!
# Capture by many threads

Every thread of the application writes its packets to a stream of its own.  What orders the
streams against each other on replay is written at capture: with every handle the thread and
the packet that last modified its object, and in every thread barrier the packet numbers of
all threads.  A barrier is written in front of some calls, by a new thread, and by a thread
that finds its `pending_barrier` set, which `push_thread_barriers` of another thread does.

* `Action`, `step` — one access of one thread to what it shares with the others.
* `Change`, `Later` — what an action leaves of the streams.
* `OrderInv` — what a packet waits for was ended before it.
* `handles_and_barriers_wait` — what a handle or a barrier waits for on replay.
* `SourceEnded` — a call that made the last change of an object has returned when another
  thread writes a handle of the object.
* `replay_never_deadlocks` — the waits of such a trace have no cycle.
* `ExternallySynchronised` — what the application promises; `SourceEnded` follows where only
  objects that a call takes as externally synchronised are modified by it.
* `pushed_barrier_not_lost` — who waits for a packet that has pushed barriers.
-/

namespace Lavatube
namespace Capture

open Transition
open Replay (Handle Packet Awaits WellOrdered HasRead)

/-! ## The tracer -/

/-- The thread and the packet of a change. -/
structure ChangeSource where
  thread : Nat
  packet : Nat
deriving DecidableEq, Repr

/-- A handle as `write_handle` gets it; a null pointer has no last change. -/
structure CapturedHandle where
  index : Nat
  lastModified : Option ChangeSource
deriving DecidableEq, Repr

/-- A packet, as far as replay waits in it. -/
inductive CapturedPacket where
  | call (handles : List CapturedHandle)
  | threadBarrier (indices : List Nat)
deriving DecidableEq, Repr

/-- The argument of `write_int8_t`, converted from `uint8_t`. -/
def writeInt8 (value : Nat) : Int :=
  if value % 256 < 128 then (value % 256 : Nat) else (value % 256 : Nat) - 256

/-- What `write_handle` stores. -/
def CapturedHandle.stored (handle : CapturedHandle) : Handle :=
  match handle.lastModified with
  | some source => ⟨handle.index, writeInt8 source.thread, source.packet⟩
  | none => ⟨handle.index, -1, 0⟩

/-- What is stored of a packet. -/
def CapturedPacket.stored : CapturedPacket → Packet
  | .call handles => .call (handles.map CapturedHandle.stored)
  | .threadBarrier indices => .threadBarrier indices

/-- Where a thread stands in `write_header` and `write_api_command`. -/
inductive Phase where
  | outside
  | localBarrier
  | command
  | injecting
  | beginning
deriving DecidableEq, Repr

/-- `lava_file_writer`, with `opened` for `packet_open` and the packet that is open. -/
structure Writer where
  packet : Nat := 0
  opened : Option CapturedPacket := none
  stream : List CapturedPacket := []
  pendingBarrier : Bool := false
  threadBarriersActive : Bool := true
  phase : Phase := .outside
deriving DecidableEq, Repr

/-- All writers (`thread_streams`) and the last change of every object.  `order` has the packets
in the order in which they were ended; the tracer does not keep it. -/
structure State where
  count : Nat := 0
  writers : Nat → Writer := fun _ => {}
  lastModified : Nat → Option ChangeSource := fun _ => none
  order : List (Nat × Nat) := []

/-- The packets of all threads, as they are stored. -/
def State.streams (s : State) (t : Nat) : List Packet :=
  (s.writers t).stream.map CapturedPacket.stored

/-- One writer after another. -/
def State.setWriter (s : State) (t : Nat) (writer : Writer) : State :=
  { s with writers := Function.update s.writers t writer }

/-- `end_packet`. -/
def endPacket (s : State) (t : Nat) : State :=
  let writer := s.writers t
  match writer.opened with
  | none => s
  | some packet =>
      { s.setWriter t { writer with
          opened := none
          stream := writer.stream ++ [packet]
          packet := writer.packet + 1 } with
        order := s.order ++ [(t, writer.packet)] }

/-- `begin_packet`.  The largest `uint32_t` is not a packet number: `change_source::self_test`
and `write_thread_barrier` assert that it is never reached. -/
def beginPacket (s : State) (t : Nat) (content : CapturedPacket) : Option State :=
  let ended := endPacket s t
  if (ended.writers t).packet < 2 ^ 32 - 1 then
    some (ended.setWriter t { ended.writers t with opened := some content })
  else
    none

/-- The packet numbers of all threads, in `inject_thread_barrier`. -/
def packetIndices (s : State) : List Nat :=
  (List.range s.count).map fun i => (s.writers i).packet

/-- `inject_thread_barrier`, with the assertions of `write_thread_barrier`. -/
def injectThreadBarrier (s : State) (t : Nat) : Option State :=
  if (packetIndices s).length ≤ 255 ∧ ∀ index ∈ packetIndices s, index ≠ 2 ^ 32 - 1 then
    (beginPacket s t (.threadBarrier (packetIndices s))).map fun begun => endPacket begun t
  else
    none

/-- A thread goes on in `write_header`. -/
def setPhase (s : State) (t : Nat) (phase : Phase) : State :=
  s.setWriter t { s.writers t with phase := phase }

/-- `push_thread_barriers`. -/
def pushThreadBarriers (s : State) (t : Nat) : State :=
  { s with
    writers := fun i =>
      let writer := s.writers i
      if i < s.count ∧ i ≠ t ∧ writer.threadBarriersActive then
        { writer with pendingBarrier := true }
      else
        writer }

/-- What a thread does next: a new writer, `activate_thread_barriers`, the parts of
`write_header`, an update packet, and what is written and done in an open packet. -/
inductive Action where
  | makeWriter (active : Bool)
  | activate (t : Nat)
  | enter (t : Nat) (threadBarrier : Bool)
  | injectLocal (t : Nat)
  | checkPending (t : Nat)
  | injectPending (t : Nat)
  | beginCall (t : Nat)
  | beginUpdate (t : Nat)
  | writeHandle (t : Nat) (object : Option Nat)
  | modify (t object : Nat)
  | push (t : Nat)
  | endPacket (t : Nat)
deriving DecidableEq, Repr

/-- The thread that takes an action; a new writer gets the next number. -/
def Action.thread (s : State) : Action → Nat
  | .makeWriter _ => s.count
  | .activate t | .enter t _ | .injectLocal t | .checkPending t | .injectPending t
  | .beginCall t | .beginUpdate t | .writeHandle t _ | .modify t _ | .push t | .endPacket t => t

/-- The phase in which a thread takes an action; it may be activated in any of them. -/
def Action.phase (s : State) : Action → Phase
  | .activate t => (s.writers t).phase
  | .injectLocal _ => .localBarrier
  | .checkPending _ => .command
  | .injectPending _ => .injecting
  | .beginCall _ => .beginning
  | _ => .outside

/-- The handles that were written to the packet that is open. -/
def Writer.handles? (writer : Writer) : Option (List CapturedHandle) :=
  match writer.opened with
  | some (.call handles) => some handles
  | _ => none

/-- What `write_handle` reads of its object, which must have been created. -/
def captureHandle (s : State) : Option Nat → Option CapturedHandle
  | none => some ⟨2 ^ 32 - 2, none⟩
  | some object => (s.lastModified object).map fun source => ⟨object, some source⟩

/-- An action of a thread that has a writer. -/
def act (s : State) : Action → Option State
  | .makeWriter active => do
      let injected ← injectThreadBarrier
        (s.setWriter s.count { threadBarriersActive := active }) s.count
      some { injected with count := s.count + 1 }
  | .activate t => some (s.setWriter t { s.writers t with threadBarriersActive := true })
  | .enter t threadBarrier =>
      some (setPhase s t (if threadBarrier then .localBarrier else .command))
  | .injectLocal t => (injectThreadBarrier s t).map fun injected => setPhase injected t .command
  | .checkPending t =>
      some (setPhase s t (if (s.writers t).pendingBarrier then .injecting else .beginning))
  | .injectPending t =>
      (injectThreadBarrier s t).map fun injected =>
        injected.setWriter t { injected.writers t with
          pendingBarrier := false
          phase := .beginning }
  | .beginCall t => (beginPacket s t (.call [])).map fun begun => setPhase begun t .outside
  | .beginUpdate t => beginPacket s t (.call [])
  | .writeHandle t object => do
      let handles ← (s.writers t).handles?
      let handle ← captureHandle s object
      some (s.setWriter t { s.writers t with opened := some (.call (handles ++ [handle])) })
  | .modify t object =>
      if (s.writers t).handles?.isSome then
        some { s with
          lastModified :=
            Function.update s.lastModified object (some ⟨t, (s.writers t).packet⟩) }
      else
        none
  | .push t => if (s.writers t).handles?.isSome then some (pushThreadBarriers s t) else none
  | .endPacket t => some (endPacket s t)

/-- One action of one thread; only a new writer comes from a thread without one. -/
def step (s : State) (action : Action) : Option State :=
  match action with
  | .makeWriter _ => act s action
  | _ =>
      if action.thread s < s.count ∧ (s.writers (action.thread s)).phase = action.phase s then
        act s action
      else
        none

/-! ## What the parts of a step change -/

section

variable {s next : State} {t i : Nat} {content : CapturedPacket} {writer : Writer}

@[simp] theorem setWriter_self : (s.setWriter t writer).writers t = writer :=
  Function.update_self _ _ _

theorem setWriter_of_ne (hi : i ≠ t) : (s.setWriter t writer).writers i = s.writers i :=
  Function.update_of_ne hi _ _

@[simp] theorem setWriter_count : (s.setWriter t writer).count = s.count := rfl

@[simp] theorem setWriter_lastModified :
    (s.setWriter t writer).lastModified = s.lastModified := rfl

@[simp] theorem setWriter_order : (s.setWriter t writer).order = s.order := rfl

/-- All packets of a writer, the open one included. -/
def Writer.packets (writer : Writer) : List CapturedPacket :=
  writer.stream ++ writer.opened.toList

theorem endPacket_of_closed (hopened : (s.writers t).opened = none) : endPacket s t = s := by
  simp only [endPacket, hopened]

theorem endPacket_of_open (hopened : (s.writers t).opened = some content) :
    endPacket s t = { s.setWriter t { s.writers t with
        opened := none
        stream := (s.writers t).stream ++ [content]
        packet := (s.writers t).packet + 1 } with
      order := s.order ++ [(t, (s.writers t).packet)] } := by
  simp only [endPacket, hopened]

/-- `end_packet` of a thread touches nothing but its writer. -/
theorem endPacket_frame : (endPacket s t).count = s.count ∧
    (endPacket s t).lastModified = s.lastModified ∧
    ∀ i, i ≠ t → (endPacket s t).writers i = s.writers i := by
  cases hopened : (s.writers t).opened with
  | none =>
      rw [endPacket_of_closed hopened]
      exact ⟨rfl, rfl, fun i _ => rfl⟩
  | some content =>
      rw [endPacket_of_open hopened]
      exact ⟨rfl, rfl, fun i hi => setWriter_of_ne hi⟩

/-- What `end_packet` leaves of its writer. -/
theorem endPacket_self : ((endPacket s t).writers t).opened = none ∧
    ((endPacket s t).writers t).stream = (s.writers t).packets ∧
    ((endPacket s t).writers t).packet =
      (s.writers t).packet + (s.writers t).opened.toList.length ∧
    ((endPacket s t).writers t).pendingBarrier = (s.writers t).pendingBarrier ∧
    ((endPacket s t).writers t).phase = (s.writers t).phase := by
  unfold Writer.packets
  cases hopened : (s.writers t).opened with
  | none =>
      rw [endPacket_of_closed hopened]
      simp [hopened]
  | some content =>
      rw [endPacket_of_open hopened]
      simp

/-- **What `begin_packet` does.** -/
theorem beginPacket_cases (hbegin : beginPacket s t content = some next) :
    ((endPacket s t).writers t).packet < 2 ^ 32 - 1 ∧
      next = (endPacket s t).setWriter t
        { (endPacket s t).writers t with opened := some content } := by
  simp only [beginPacket] at hbegin
  split at hbegin
  · case _ hlt => exact ⟨hlt, (Option.some.inj hbegin).symm⟩
  · cases hbegin

/-- **What `inject_thread_barrier` does.** -/
theorem inject_cases (hinject : injectThreadBarrier s t = some next) :
    s.count ≤ 255 ∧ ∃ begun,
      beginPacket s t (.threadBarrier (packetIndices s)) = some begun ∧
        next = endPacket begun t := by
  unfold injectThreadBarrier at hinject
  split at hinject
  · case _ hassert =>
      obtain ⟨begun, hbegin, rfl⟩ := Option.map_eq_some_iff.mp hinject
      exact ⟨by simpa [packetIndices] using hassert.1, begun, hbegin, rfl⟩
  · cases hinject

/-- `begin_packet` of a thread touches nothing but its writer. -/
theorem beginPacket_frame (hbegin : beginPacket s t content = some next) :
    next.count = s.count ∧ next.lastModified = s.lastModified ∧
      (∀ i, i ≠ t → next.writers i = s.writers i) ∧
      (next.writers t).pendingBarrier = (s.writers t).pendingBarrier ∧
      (next.writers t).phase = (s.writers t).phase := by
  obtain ⟨hcount, hmodified, hothers⟩ := endPacket_frame (s := s) (t := t)
  obtain ⟨-, rfl⟩ := beginPacket_cases hbegin
  refine ⟨hcount, hmodified, fun i hi => ?_, ?_⟩
  · rw [setWriter_of_ne hi, hothers i hi]
  · rw [setWriter_self]
    exact endPacket_self.2.2.2

/-- `inject_thread_barrier` of a thread touches nothing but its writer. -/
theorem inject_frame (hinject : injectThreadBarrier s t = some next) :
    next.count = s.count ∧ next.lastModified = s.lastModified ∧
      (∀ i, i ≠ t → next.writers i = s.writers i) ∧
      (next.writers t).pendingBarrier = (s.writers t).pendingBarrier ∧
      (next.writers t).phase = (s.writers t).phase := by
  obtain ⟨-, begun, hbegin, rfl⟩ := inject_cases hinject
  obtain ⟨hcount, hmodified, hothers, hpending, hphase⟩ := beginPacket_frame hbegin
  obtain ⟨hcount', hmodified', hothers'⟩ := endPacket_frame (s := begun) (t := t)
  obtain ⟨-, -, -, hpending', hphase'⟩ := endPacket_self (s := begun) (t := t)
  refine ⟨hcount'.trans hcount, hmodified'.trans hmodified, fun i hi => ?_,
    hpending'.trans hpending, hphase'.trans hphase⟩
  rw [hothers' i hi, hothers i hi]

/-- The barrier of `inject_thread_barrier` is the last packet of the stream. -/
theorem inject_stream (hinject : injectThreadBarrier s t = some next) :
    (next.writers t).stream =
      (s.writers t).packets ++ [.threadBarrier (packetIndices s)] := by
  obtain ⟨-, begun, hbegin, rfl⟩ := inject_cases hinject
  obtain ⟨-, rfl⟩ := beginPacket_cases hbegin
  rw [endPacket_self.2.1, setWriter_self, Writer.packets, endPacket_self.2.1]
  rfl

/-- Only control data of the writers differ. -/
structure Quiet (s next : State) : Prop where
  packet : ∀ i, (next.writers i).packet = (s.writers i).packet
  opened : ∀ i, (next.writers i).opened = (s.writers i).opened
  stream : ∀ i, (next.writers i).stream = (s.writers i).stream
  lastModified : next.lastModified = s.lastModified
  order : next.order = s.order

/-- Control data of one writer. -/
theorem quiet_setWriter (hpacket : writer.packet = (s.writers t).packet)
    (hopened : writer.opened = (s.writers t).opened)
    (hstream : writer.stream = (s.writers t).stream) : Quiet s (s.setWriter t writer) := by
  have hwriter : ∀ {α : Type} (field : Writer → α), field writer = field (s.writers t) →
      ∀ i, field ((s.setWriter t writer).writers i) = field (s.writers i) := by
    intro α field hfield i
    by_cases hi : i = t
    · rw [hi, setWriter_self, hfield]
    · rw [setWriter_of_ne hi]
  exact ⟨hwriter _ hpacket, hwriter _ hopened, hwriter _ hstream, rfl, rfl⟩

theorem quiet_setPhase (phase : Phase) : Quiet s (setPhase s t phase) :=
  quiet_setWriter rfl rfl rfl

theorem quiet_push : Quiet s (pushThreadBarriers s t) := by
  constructor
  case packet | opened | stream =>
    intro i
    simp only [pushThreadBarriers]
    split <;> rfl
  case lastModified | order => rfl

/-! ## Streams only grow -/

/-- What one action leaves of the streams. -/
structure Later (s next : State) : Prop where
  packet : ∀ i, (s.writers i).packet ≤ (next.writers i).packet
  stream : ∀ i, (s.writers i).stream <+: (next.writers i).stream
  handles : ∀ (i k : Nat) handles, (s.writers i).packets[k]? = some (.call handles) →
    ∃ more, (next.writers i).packets[k]? = some (.call (handles ++ more))

theorem Later.refl (s : State) : Later s s :=
  ⟨fun _ => le_rfl, fun _ => List.prefix_rfl, fun _ _ _ h => ⟨[], by rw [List.append_nil, h]⟩⟩

theorem Later.trans {middle : State} (hfirst : Later s middle) (hsecond : Later middle next) :
    Later s next := by
  refine ⟨fun i => (hfirst.packet i).trans (hsecond.packet i),
    fun i => (hfirst.stream i).trans (hsecond.stream i), fun i k handles hhandles => ?_⟩
  obtain ⟨more, hmore⟩ := hfirst.handles i k handles hhandles
  obtain ⟨rest, hrest⟩ := hsecond.handles i k _ hmore
  exact ⟨more ++ rest, by rw [hrest, List.append_assoc]⟩

theorem Quiet.later (hquiet : Quiet s next) : Later s next := by
  refine ⟨fun i => (hquiet.packet i).ge, fun i => (hquiet.stream i) ▸ List.prefix_rfl,
    fun i k handles hhandles => ⟨[], ?_⟩⟩
  rw [Writer.packets, hquiet.stream, hquiet.opened, List.append_nil]
  exact hhandles

/-- The streams grow where one writer's does. -/
theorem later_of_writer (hothers : ∀ i, i ≠ t → next.writers i = s.writers i)
    (hpacket : (s.writers t).packet ≤ (next.writers t).packet)
    (hstream : (s.writers t).stream <+: (next.writers t).stream)
    (hpackets : ∀ (k : Nat) handles, (s.writers t).packets[k]? = some (.call handles) →
      ∃ more, (next.writers t).packets[k]? = some (.call (handles ++ more))) :
    Later s next := by
  constructor
  case packet =>
    intro i
    by_cases hi : i = t
    · exact hi ▸ hpacket
    · rw [hothers i hi]
  case stream =>
    intro i
    by_cases hi : i = t
    · exact hi ▸ hstream
    · rw [hothers i hi]
  case handles =>
    intro i
    by_cases hi : i = t
    · exact hi ▸ hpackets
    · intro k handles hhandles
      exact ⟨[], by rw [hothers i hi, hhandles, List.append_nil]⟩

theorem endPacket_later : Later s (endPacket s t) := by
  obtain ⟨hopened, hstream, hpacket, -, -⟩ := endPacket_self (s := s) (t := t)
  refine later_of_writer endPacket_frame.2.2 (by omega) ?_ ?_
  · rw [hstream]
    exact List.prefix_append _ _
  · intro k handles hhandles
    refine ⟨[], ?_⟩
    rw [Writer.packets, hopened, hstream, Option.toList_none, List.append_nil, hhandles,
      List.append_nil]

theorem beginPacket_later (hbegin : beginPacket s t content = some next) : Later s next := by
  obtain ⟨-, rfl⟩ := beginPacket_cases hbegin
  refine endPacket_later.trans (later_of_writer (fun i hi => setWriter_of_ne hi) ?_ ?_ ?_)
  · rw [setWriter_self]
  · rw [setWriter_self]
  · intro k handles hhandles
    rw [Writer.packets, endPacket_self.1, Option.toList_none, List.append_nil] at hhandles
    refine ⟨[], ?_⟩
    rw [setWriter_self, Writer.packets,
      List.getElem?_append_left (List.getElem?_eq_some_iff.mp hhandles).1, hhandles,
      List.append_nil]

theorem inject_later (hinject : injectThreadBarrier s t = some next) : Later s next := by
  obtain ⟨-, begun, hbegin, rfl⟩ := inject_cases hinject
  exact (beginPacket_later hbegin).trans endPacket_later

/-! ## What an action changes -/

variable {action : Action}

/-- An action is taken by a thread that may take it. -/
theorem step_cases (hstep : step s action = some next) : act s action = some next ∧
    ((∃ active, action = .makeWriter active) ∨
      action.thread s < s.count ∧ (s.writers (action.thread s)).phase = action.phase s) := by
  cases action with
  | makeWriter active => exact ⟨hstep, .inl ⟨active, rfl⟩⟩
  | _ =>
      simp only [step] at hstep
      split at hstep
      · case _ henabled => exact ⟨hstep, .inr henabled⟩
      · cases hstep

/-- `write_handle` extends the packet that is open. -/
theorem writeHandle_cases {object : Option Nat}
    (hact : act s (.writeHandle t object) = some next) :
    ∃ handles handle, (s.writers t).opened = some (.call handles) ∧
      captureHandle s object = some handle ∧
      next = s.setWriter t { s.writers t with opened := some (.call (handles ++ [handle])) } := by
  simp only [act, Option.bind_eq_bind, Option.bind_eq_some_iff, Option.some.injEq] at hact
  obtain ⟨handles, hhandles, handle, hhandle, rfl⟩ := hact
  unfold Writer.handles? at hhandles
  split at hhandles
  · case _ hopened =>
      cases hhandles
      exact ⟨handles, handle, hopened, hhandle, rfl⟩
  · cases hhandles

theorem makeWriter_cases {active : Bool} (hact : act s (.makeWriter active) = some next) :
    ∃ injected, injectThreadBarrier
        (s.setWriter s.count { threadBarriersActive := active }) s.count = some injected ∧
      next = { injected with count := s.count + 1 } := by
  simp only [act, Option.bind_eq_bind, Option.bind_eq_some_iff, Option.some.injEq] at hact
  obtain ⟨injected, hinject, rfl⟩ := hact
  exact ⟨injected, hinject, rfl⟩

theorem modify_cases {object : Nat} (hact : act s (.modify t object) = some next) :
    (s.writers t).opened.isSome = true ∧ next = { s with
      lastModified :=
        Function.update s.lastModified object (some ⟨t, (s.writers t).packet⟩) } := by
  simp only [act] at hact
  split at hact
  · case _ hhandles =>
      refine ⟨?_, (Option.some.inj hact).symm⟩
      cases hopened : (s.writers t).opened with
      | none => simp [Writer.handles?, hopened] at hhandles
      | some content => rfl
  · cases hact

theorem push_cases (hact : act s (.push t) = some next) :
    (s.writers t).opened.isSome = true ∧ next = pushThreadBarriers s t := by
  simp only [act] at hact
  split at hact
  · case _ hhandles =>
      refine ⟨?_, (Option.some.inj hact).symm⟩
      cases hopened : (s.writers t).opened with
      | none => simp [Writer.handles?, hopened] at hhandles
      | some content => rfl
  · cases hact

/-- The writers of the other threads are left alone, but for `push_thread_barriers`. -/
theorem act_others (hact : act s action = some next) (hi : i ≠ action.thread s) :
    next.writers i = s.writers i ∨
      (∃ t, action = .push t) ∧ i < s.count ∧
        next.writers i = { s.writers i with pendingBarrier := true } := by
  cases action with
  | makeWriter active =>
      obtain ⟨injected, hinject, rfl⟩ := makeWriter_cases hact
      exact .inl (((inject_frame hinject).2.2.1 i hi).trans (setWriter_of_ne hi))
  | injectLocal t =>
      obtain ⟨injected, hinject, rfl⟩ := Option.map_eq_some_iff.mp hact
      exact .inl ((setWriter_of_ne hi).trans ((inject_frame hinject).2.2.1 i hi))
  | injectPending t =>
      obtain ⟨injected, hinject, rfl⟩ := Option.map_eq_some_iff.mp hact
      exact .inl ((setWriter_of_ne hi).trans ((inject_frame hinject).2.2.1 i hi))
  | beginCall t =>
      obtain ⟨begun, hbegin, rfl⟩ := Option.map_eq_some_iff.mp hact
      exact .inl ((setWriter_of_ne hi).trans ((beginPacket_frame hbegin).2.2.1 i hi))
  | beginUpdate t => exact .inl ((beginPacket_frame hact).2.2.1 i hi)
  | writeHandle t object =>
      obtain ⟨_, _, -, -, rfl⟩ := writeHandle_cases hact
      exact .inl (setWriter_of_ne hi)
  | modify t object =>
      obtain ⟨-, rfl⟩ := modify_cases hact
      exact .inl rfl
  | push t =>
      obtain ⟨-, rfl⟩ := push_cases hact
      simp only [pushThreadBarriers]
      split
      · case _ hpushed => exact .inr ⟨⟨t, rfl⟩, hpushed.1, rfl⟩
      · exact .inl rfl
  | endPacket t =>
      cases hact
      exact .inl (endPacket_frame.2.2 i hi)
  | activate t | enter t threadBarrier | checkPending t =>
      cases hact
      exact .inl (setWriter_of_ne hi)

/-- The writers are counted. -/
theorem act_count (hact : act s action = some next) :
    next.count = s.count ∨
      (∃ active, action = .makeWriter active) ∧ next.count = s.count + 1 ∧ s.count ≤ 255 := by
  cases action with
  | makeWriter active =>
      obtain ⟨injected, hinject, rfl⟩ := makeWriter_cases hact
      exact .inr ⟨⟨active, rfl⟩, rfl, (inject_cases hinject).1⟩
  | injectLocal t | injectPending t =>
      obtain ⟨injected, hinject, rfl⟩ := Option.map_eq_some_iff.mp hact
      exact .inl (inject_frame hinject).1
  | beginCall t =>
      obtain ⟨begun, hbegin, rfl⟩ := Option.map_eq_some_iff.mp hact
      exact .inl (beginPacket_frame hbegin).1
  | beginUpdate t => exact .inl (beginPacket_frame hact).1
  | writeHandle t object =>
      obtain ⟨_, _, -, -, rfl⟩ := writeHandle_cases hact
      exact .inl rfl
  | modify t object =>
      obtain ⟨-, rfl⟩ := modify_cases hact
      exact .inl rfl
  | push t =>
      obtain ⟨-, rfl⟩ := push_cases hact
      exact .inl rfl
  | endPacket t =>
      cases hact
      exact .inl endPacket_frame.1
  | activate t | enter t threadBarrier | checkPending t =>
      cases hact
      exact .inl rfl

/-- The part of an action that replay can see. -/
inductive Change (s : State) : Action → State → Prop
  | silent (action : Action) : Change s action s
  | ended (action : Action) (t : Nat) : Change s action (endPacket s t)
  | begun {next : State} (action : Action) (t : Nat)
      (hbegin : beginPacket s t (.call []) = some next) : Change s action next
  | injected {next : State} (action : Action) (t : Nat)
      (hinject : injectThreadBarrier s t = some next) : Change s action next
  | handle (t : Nat) (object : Option Nat) (handles : List CapturedHandle)
      (handle : CapturedHandle) (hopened : (s.writers t).opened = some (.call handles))
      (hhandle : captureHandle s object = some handle) :
      Change s (.writeHandle t object)
        (s.setWriter t { s.writers t with opened := some (.call (handles ++ [handle])) })
  | modified (t object : Nat) (hopened : (s.writers t).opened.isSome = true) :
      Change s (.modify t object) { s with
        lastModified :=
          Function.update s.lastModified object (some ⟨t, (s.writers t).packet⟩) }

theorem Quiet.refl (s : State) : Quiet s s :=
  ⟨fun _ => rfl, fun _ => rfl, fun _ => rfl, rfl, rfl⟩

/-- **What an action does**: control data aside, at most one change. -/
theorem act_change (hfresh : ∀ i, s.count ≤ i → s.writers i = {})
    (hact : act s action = some next) :
    ∃ before after, Quiet s before ∧ Change before action after ∧ Quiet after next := by
  cases action with
  | makeWriter active =>
      obtain ⟨injected, hinject, rfl⟩ := makeWriter_cases hact
      have hnew := hfresh s.count le_rfl
      refine ⟨_, injected, quiet_setWriter ?_ ?_ ?_, .injected _ _ hinject, ?_⟩
      · rw [hnew]
      · rw [hnew]
      · rw [hnew]
      · exact ⟨fun _ => rfl, fun _ => rfl, fun _ => rfl, rfl, rfl⟩
  | injectLocal t =>
      obtain ⟨injected, hinject, rfl⟩ := Option.map_eq_some_iff.mp hact
      exact ⟨s, injected, .refl s, .injected _ t hinject, quiet_setPhase _⟩
  | injectPending t =>
      obtain ⟨injected, hinject, rfl⟩ := Option.map_eq_some_iff.mp hact
      exact ⟨s, injected, .refl s, .injected _ t hinject, quiet_setWriter rfl rfl rfl⟩
  | beginCall t =>
      obtain ⟨begun, hbegin, rfl⟩ := Option.map_eq_some_iff.mp hact
      exact ⟨s, begun, .refl s, .begun _ t hbegin, quiet_setPhase _⟩
  | beginUpdate t => exact ⟨s, next, .refl s, .begun _ t hact, .refl next⟩
  | writeHandle t object =>
      obtain ⟨handles, handle, hopened, hhandle, rfl⟩ := writeHandle_cases hact
      exact ⟨s, _, .refl s, .handle t object handles handle hopened hhandle, .refl _⟩
  | modify t object =>
      obtain ⟨hopened, rfl⟩ := modify_cases hact
      exact ⟨s, _, .refl s, .modified t object hopened, .refl _⟩
  | push t =>
      obtain ⟨-, rfl⟩ := push_cases hact
      exact ⟨s, s, .refl s, .silent _, quiet_push⟩
  | endPacket t =>
      cases hact
      exact ⟨s, _, .refl s, .ended _ t, .refl _⟩
  | activate t | enter t threadBarrier | checkPending t =>
      cases hact
      exact ⟨s, s, .refl s, .silent _, quiet_setWriter rfl rfl rfl⟩

theorem Change.later (hchange : Change s action next) : Later s next := by
  cases hchange with
  | silent => exact Later.refl s
  | ended => exact endPacket_later
  | begun _ _ hbegin => exact beginPacket_later hbegin
  | injected _ _ hinject => exact inject_later hinject
  | handle t object handles handle hopened hhandle =>
      refine later_of_writer (fun i hi => setWriter_of_ne hi) ?_ ?_ ?_
      · rw [setWriter_self]
      · rw [setWriter_self]
      · intro k written hwritten
        rw [setWriter_self]
        simp only [Writer.packets, hopened, Option.toList_some] at hwritten ⊢
        rcases Nat.lt_or_ge k (s.writers t).stream.length with hk | hk
        · rw [List.getElem?_append_left hk] at hwritten ⊢
          exact ⟨[], by rw [hwritten, List.append_nil]⟩
        · rw [List.getElem?_append_right hk, List.getElem?_singleton] at hwritten ⊢
          split at hwritten
          · case _ hzero =>
              cases hwritten
              exact ⟨[handle], by rw [if_pos hzero]⟩
          · cases hwritten
  | modified => exact ⟨fun _ => le_rfl, fun _ => List.prefix_rfl,
      fun _ _ _ h => ⟨[], by rw [List.append_nil]; exact h⟩⟩

/-! ## The writers -/

/-- What is known of the writers. -/
structure WriterInv (s : State) : Prop where
  count_le : s.count ≤ 256
  fresh : ∀ i, s.count ≤ i → s.writers i = {}
  source : ∀ object source, s.lastModified object = some source → source.thread < s.count
  length : ∀ i, (s.writers i).packet = (s.writers i).stream.length

theorem endPacket_length (hlength : ∀ i, (s.writers i).packet = (s.writers i).stream.length)
    (i : Nat) :
    ((endPacket s t).writers i).packet = ((endPacket s t).writers i).stream.length := by
  by_cases hi : i = t
  · subst hi
    rw [endPacket_self.2.1, endPacket_self.2.2.1, Writer.packets, List.length_append, hlength i]
  · rw [endPacket_frame.2.2 i hi, hlength i]

theorem beginPacket_length (hlength : ∀ i, (s.writers i).packet = (s.writers i).stream.length)
    (hbegin : beginPacket s t content = some next) (i : Nat) :
    (next.writers i).packet = (next.writers i).stream.length := by
  obtain ⟨-, rfl⟩ := beginPacket_cases hbegin
  by_cases hi : i = t
  · subst hi
    rw [setWriter_self]
    exact endPacket_length hlength i
  · rw [setWriter_of_ne hi]
    exact endPacket_length hlength i

theorem Change.length (hchange : Change s action next)
    (hlength : ∀ i, (s.writers i).packet = (s.writers i).stream.length) (i : Nat) :
    (next.writers i).packet = (next.writers i).stream.length := by
  cases hchange with
  | silent | modified => exact hlength i
  | ended => exact endPacket_length hlength i
  | begun _ _ hbegin => exact beginPacket_length hlength hbegin i
  | injected _ _ hinject =>
      obtain ⟨-, begun, hbegin, rfl⟩ := inject_cases hinject
      exact endPacket_length (beginPacket_length hlength hbegin) i
  | handle t _ _ _ _ _ =>
      by_cases hi : i = t
      · subst hi
        rw [setWriter_self]
        exact hlength i
      · rw [setWriter_of_ne hi, hlength i]

/-- **What an action does to the writers.** -/
theorem step_writerInv (hinv : WriterInv s) (hstep : step s action = some next) :
    WriterInv next := by
  obtain ⟨hact, hthread⟩ := step_cases hstep
  obtain ⟨before, after, hbefore, hchange, hafter⟩ := act_change hinv.fresh hact
  -- a thread that does not exist yet takes no action
  have hlt : ∀ i, next.count ≤ i → i ≠ action.thread s := by
    intro i hi hself
    rcases act_count hact with hcount | ⟨⟨active, rfl⟩, hcount, -⟩
    · rcases hthread with ⟨active, rfl⟩ | ⟨hlt, -⟩
      · obtain ⟨injected, -, rfl⟩ := makeWriter_cases hact
        simp only at hcount
        omega
      · omega
    · simp only [Action.thread] at hself
      omega
  have hgrows : s.count ≤ next.count := by
    rcases act_count hact with hcount | ⟨-, hcount, -⟩ <;> omega
  constructor
  case count_le =>
    have hle := hinv.count_le
    rcases act_count hact with hcount | ⟨-, hcount, hle⟩ <;> omega
  case fresh =>
    intro i hi
    rcases act_others hact (hlt i hi) with hsame | ⟨-, hpushed, -⟩
    · rw [hsame, hinv.fresh i (by omega)]
    · omega
  case source =>
    intro object source hsource
    rw [hafter.lastModified] at hsource
    have hold : before.lastModified object = some source → source.thread < next.count := by
      intro h
      rw [hbefore.lastModified] at h
      exact (hinv.source object source h).trans_le hgrows
    cases hchange with
    | silent => exact hold hsource
    | ended =>
        rw [endPacket_frame.2.1] at hsource
        exact hold hsource
    | begun _ _ hbegin =>
        rw [(beginPacket_frame hbegin).2.1] at hsource
        exact hold hsource
    | injected _ _ hinject =>
        rw [(inject_frame hinject).2.1] at hsource
        exact hold hsource
    | handle => exact hold hsource
    | modified t changed hopened =>
        -- the source of the object is the packet that is open
        by_cases hobject : object = changed
        · subst hobject
          simp only [Function.update_self] at hsource
          cases hsource
          rcases hthread with ⟨active, hmake⟩ | ⟨hlt, -⟩
          · cases hmake
          · exact Nat.lt_of_lt_of_le hlt hgrows
        · simp only [Function.update_of_ne hobject] at hsource
          exact hold hsource
  case length =>
    intro i
    rw [hafter.packet, hafter.stream]
    refine hchange.length (fun j => ?_) i
    rw [hbefore.packet, hbefore.stream, hinv.length]

theorem writerInv_init : WriterInv {} :=
  ⟨by decide, fun _ _ => rfl, by simp, fun _ => rfl⟩

/-- **What a run does to the writers.** -/
theorem exec_writerInv {actions : List Action} (hexec : exec step {} actions = some s) :
    WriterInv s :=
  exec_invariant_of_step (fun _ _ _ hinv hstep => step_writerInv hinv hstep) writerInv_init hexec

/-- **What an action leaves of the streams.** -/
theorem step_later (hinv : WriterInv s) (hstep : step s action = some next) : Later s next := by
  obtain ⟨before, after, hbefore, hchange, hafter⟩ := act_change hinv.fresh (step_cases hstep).1
  exact (hbefore.later.trans hchange.later).trans hafter.later

/-- **What a run leaves of the streams.** -/
theorem exec_later {actions : List Action} (hinv : WriterInv s)
    (hexec : exec step s actions = some next) : Later s next := by
  have hrun := exec_invariant_of_step
    (fun state _ _ (hstate : WriterInv state ∧ Later s state) hstep =>
      ⟨step_writerInv hstate.1 hstep, hstate.2.trans (step_later hstate.1 hstep)⟩)
    ⟨hinv, Later.refl s⟩ hexec
  exact hrun.2

/-! ## The order of the packets -/

/-- A thread number that fits an `int8_t`. -/
theorem writeInt8_of_lt {value : Nat} (hvalue : value < 128) : writeInt8 value = value := by
  unfold writeInt8
  rw [if_pos (by omega), Nat.mod_eq_of_lt (by omega)]

/-- A thread number that is still positive as an `int8_t`. -/
theorem writeInt8_eq {value : Nat} (hvalue : value < 256) (hpositive : 0 ≤ writeInt8 value) :
    writeInt8 value = value := by
  refine writeInt8_of_lt (not_le.mp fun hge => ?_)
  unfold writeInt8 at hpositive
  rw [if_neg (by omega), Nat.mod_eq_of_lt hvalue] at hpositive
  omega

/-- What a stored handle waits for. -/
theorem CapturedHandle.awaits {handle : CapturedHandle}
    (hthread : ∀ source, handle.lastModified = some source → source.thread < 256)
    (hother : ¬ handle.stored.Own t) : ∃ source, handle.lastModified = some source ∧
      source.thread ≠ t ∧ handle.stored.thread.toNat = source.thread ∧
      handle.stored.packet = source.packet := by
  unfold Handle.Own at hother
  unfold CapturedHandle.stored at hother ⊢
  split at hother
  · case _ source hsource =>
      obtain ⟨hpositive, hne⟩ := not_or.mp hother
      have heq := writeInt8_eq (hthread source hsource) (not_lt.mp hpositive)
      refine ⟨source, hsource, ?_, ?_, rfl⟩
      · rintro rfl
        exact hne heq
      · show (writeInt8 source.thread).toNat = source.thread
        rw [heq, Int.toNat_natCast]
  · exact absurd (.inl (by norm_num)) hother

/-- Every packet was ended behind the packets that it waits for. -/
structure OrderInv (s : State) : Prop where
  mem : ∀ t k, (t, k) ∈ s.order ↔ k < (s.writers t).packet
  closed : ∀ (m t k : Nat), s.order[m]? = some (t, k) →
    ∀ j ≤ k, ∃ m' ≤ m, s.order[m']? = some (t, j)
  waits : ∀ (m t k : Nat) content, s.order[m]? = some (t, k) →
    (s.writers t).stream[k]? = some content →
    ∀ i j, Awaits t content.stored i j → ∃ m' < m, s.order[m']? = some (i, j)
  opened : ∀ t content, (s.writers t).opened = some content →
    ∀ i j, Awaits t content.stored i j → j < (s.writers i).packet
  source : ∀ object source, s.lastModified object = some source →
    source.packet < (s.writers source.thread).packet ∨
      source.packet = (s.writers source.thread).packet ∧
        (s.writers source.thread).opened.isSome = true

theorem OrderInv.quiet (hinv : OrderInv s) (hquiet : Quiet s next) : OrderInv next := by
  constructor
  case mem => simpa only [hquiet.order, hquiet.packet] using hinv.mem
  case closed => simpa only [hquiet.order] using hinv.closed
  case waits => simpa only [hquiet.order, hquiet.stream] using hinv.waits
  case opened => simpa only [hquiet.opened, hquiet.packet] using hinv.opened
  case source =>
    simpa only [hquiet.lastModified, hquiet.opened, hquiet.packet] using hinv.source

/-- **A packet is ended.** -/
theorem OrderInv.ended (hinv : OrderInv s)
    (hlength : ∀ i, (s.writers i).packet = (s.writers i).stream.length) (t : Nat) :
    OrderInv (endPacket s t) := by
  cases hopened : (s.writers t).opened with
  | none => rwa [endPacket_of_closed hopened]
  | some packet =>
      have hlater := endPacket_later (s := s) (t := t)
      obtain ⟨hclosed, hstream, hpacket, -, -⟩ := endPacket_self (s := s) (t := t)
      have hothers := (endPacket_frame (s := s) (t := t)).2.2
      have hmodified := (endPacket_frame (s := s) (t := t)).2.1
      have horder : (endPacket s t).order = s.order ++ [(t, (s.writers t).packet)] := by
        rw [endPacket_of_open hopened]
      simp only [Writer.packets, hopened, Option.toList_some, List.length_singleton]
        at hstream hpacket
      -- an old place, or the place of the packet that is ended
      have hplace : ∀ {m t' k : Nat}, (endPacket s t).order[m]? = some (t', k) →
          s.order[m]? = some (t', k) ∨
            m = s.order.length ∧ t' = t ∧ k = (s.writers t).packet := by
        intro m t' k hm
        rw [horder] at hm
        rcases Nat.lt_or_ge m s.order.length with hlt | hge
        · rw [List.getElem?_append_left hlt] at hm
          exact .inl hm
        · rw [List.getElem?_append_right hge, List.getElem?_singleton] at hm
          split at hm
          · cases hm
            exact .inr ⟨by omega, rfl, rfl⟩
          · cases hm
      have hold : ∀ {m : Nat} {p}, s.order[m]? = some p →
          (endPacket s t).order[m]? = some p := by
        intro m p hm
        rw [horder, List.getElem?_append_left (List.getElem?_eq_some_iff.mp hm).1, hm]
      have hbefore : ∀ {i j}, j < (s.writers i).packet →
          ∃ m < s.order.length, (endPacket s t).order[m]? = some (i, j) := by
        intro i j hj
        obtain ⟨m, hm⟩ := List.getElem?_of_mem ((hinv.mem i j).mpr hj)
        exact ⟨m, (List.getElem?_eq_some_iff.mp hm).1, hold hm⟩
      constructor
      case mem =>
        intro t' k
        rw [horder, List.mem_append, hinv.mem, List.mem_singleton, Prod.mk.injEq]
        by_cases ht : t' = t
        · subst ht
          rw [hpacket]
          omega
        · rw [hothers t' ht]
          simp [ht]
      case closed =>
        intro m t' k hm j hj
        rcases hplace hm with hm | ⟨rfl, rfl, rfl⟩
        · obtain ⟨m', hm', hj'⟩ := hinv.closed m t' k hm j hj
          exact ⟨m', hm', hold hj'⟩
        · rcases Nat.lt_or_eq_of_le hj with hlt | rfl
          · obtain ⟨m', hm', hj'⟩ := hbefore hlt
            exact ⟨m', hm'.le, hj'⟩
          · exact ⟨_, le_rfl, by rw [horder]; simp⟩
      case waits =>
        intro m t' k content hm hcontent i j hawaits
        rcases hplace hm with hm | ⟨rfl, rfl, rfl⟩
        · have hk := (hinv.mem t' k).mp (List.mem_of_getElem? hm)
          rw [hlength t'] at hk
          obtain ⟨more, hmore⟩ := hlater.stream t'
          rw [← hmore, List.getElem?_append_left hk] at hcontent
          obtain ⟨m', hm', hj'⟩ := hinv.waits m t' k content hm hcontent i j hawaits
          exact ⟨m', hm', hold hj'⟩
        · rw [hstream, hlength t', List.getElem?_concat_length] at hcontent
          cases hcontent
          exact hbefore (hinv.opened t' _ hopened i j hawaits)
      case opened =>
        intro t' content hcontent i j hawaits
        by_cases ht : t' = t
        · subst ht
          rw [hclosed] at hcontent
          cases hcontent
        · rw [hothers t' ht] at hcontent
          exact (hinv.opened t' content hcontent i j hawaits).trans_le (hlater.packet i)
      case source =>
        intro object source hsource
        rw [hmodified] at hsource
        rcases hinv.source object source hsource with hlt | ⟨heq, hsome⟩
        · exact .inl (hlt.trans_le (hlater.packet _))
        · by_cases ht : source.thread = t
          · rw [ht, hpacket, heq, ht]
            exact .inl (Nat.lt_succ_self _)
          · rw [hothers _ ht]
            exact .inr ⟨heq, hsome⟩

/-- A packet is opened, or the open one is extended. -/
theorem OrderInv.setOpened (hinv : OrderInv s)
    (hawaits : ∀ i j, Awaits t content.stored i j → j < (s.writers i).packet) :
    OrderInv (s.setWriter t { s.writers t with opened := some content }) := by
  have hpacket : ∀ i, ((s.setWriter t { s.writers t with opened := some content }).writers
      i).packet = (s.writers i).packet := by
    intro i
    by_cases hi : i = t
    · rw [hi, setWriter_self]
    · rw [setWriter_of_ne hi]
  have hstream : ∀ i, ((s.setWriter t { s.writers t with opened := some content }).writers
      i).stream = (s.writers i).stream := by
    intro i
    by_cases hi : i = t
    · rw [hi, setWriter_self]
    · rw [setWriter_of_ne hi]
  constructor
  case mem => simpa only [setWriter_order, hpacket] using hinv.mem
  case closed => exact hinv.closed
  case waits => simpa only [setWriter_order, hstream] using hinv.waits
  case opened =>
    intro t' other hother i j hj
    rw [hpacket]
    by_cases ht : t' = t
    · subst ht
      rw [setWriter_self] at hother
      cases hother
      exact hawaits i j hj
    · rw [setWriter_of_ne ht] at hother
      exact hinv.opened t' other hother i j hj
  case source =>
    intro object source hsource
    rw [hpacket]
    refine (hinv.source object source hsource).imp_right fun ⟨heq, hsome⟩ => ⟨heq, ?_⟩
    by_cases ht : source.thread = t
    · rw [ht, setWriter_self]
      rfl
    · rwa [setWriter_of_ne ht]

/-- **A packet is begun.** -/
theorem OrderInv.begun (hinv : OrderInv s)
    (hlength : ∀ i, (s.writers i).packet = (s.writers i).stream.length)
    (hawaits : ∀ i j, Awaits t content.stored i j → j < (s.writers i).packet)
    (hbegin : beginPacket s t content = some next) : OrderInv next := by
  obtain ⟨-, rfl⟩ := beginPacket_cases hbegin
  refine (hinv.ended hlength t).setOpened fun i j hj => ?_
  exact (hawaits i j hj).trans_le (endPacket_later.packet i)

/-- What a barrier waits for has been ended. -/
theorem packetIndices_awaits {i j : Nat}
    (hawaits : Awaits t (CapturedPacket.threadBarrier (packetIndices s)).stored i j) :
    j < (s.writers i).packet := by
  obtain ⟨-, index, hindex, hlt⟩ := hawaits
  simp only [packetIndices, List.getElem?_map, Option.map_eq_some_iff,
    List.getElem?_eq_some_iff, List.getElem_range] at hindex
  obtain ⟨_, ⟨-, rfl⟩, rfl⟩ := hindex
  exact hlt

/-- **A barrier is injected.** -/
theorem OrderInv.injected (hinv : OrderInv s)
    (hlength : ∀ i, (s.writers i).packet = (s.writers i).stream.length)
    (hinject : injectThreadBarrier s t = some next) : OrderInv next := by
  obtain ⟨-, begun, hbegin, rfl⟩ := inject_cases hinject
  refine (hinv.begun hlength (fun i j => packetIndices_awaits) hbegin).ended ?_ t
  exact beginPacket_length hlength hbegin

/-- A call of another thread that has modified the object is still in progress. -/
def InProgress (s : State) (t object : Nat) : Prop :=
  match s.lastModified object with
  | none => False
  | some source => source.thread ≠ t ∧ (s.writers source.thread).opened.isSome = true ∧
      source.packet = (s.writers source.thread).packet

instance (s : State) (t object : Nat) : Decidable (InProgress s t object) := by
  unfold InProgress
  split <;> infer_instance

/-- No handle is written of an object whose last change was made by a call of another thread
that is still in progress. -/
def SourceEnded (s : State) (action : Action) : Prop :=
  match action with
  | .writeHandle t (some object) => ¬ InProgress s t object
  | _ => True

instance (s : State) (action : Action) : Decidable (SourceEnded s action) := by
  unfold SourceEnded
  split <;> infer_instance

/-- **What an action does to the order.** -/
theorem Change.orderInv (hinv : OrderInv s)
    (hlength : ∀ i, (s.writers i).packet = (s.writers i).stream.length)
    (hthread : ∀ object source, s.lastModified object = some source → source.thread < 256)
    (hsync : SourceEnded s action) (hchange : Change s action next) :
    OrderInv next := by
  cases hchange with
  | silent => exact hinv
  | ended _ t => exact hinv.ended hlength t
  | begun _ t hbegin =>
      refine hinv.begun hlength ?_ hbegin
      rintro i j ⟨handle, hmem, -⟩
      cases hmem
  | injected _ _ hinject => exact hinv.injected hlength hinject
  | handle t object handles handle hopened hhandle =>
      refine hinv.setOpened fun i j hawaits => ?_
      obtain ⟨stored, hmem, hother, hi, hj⟩ := hawaits
      rw [List.map_append, List.mem_append] at hmem
      rcases hmem with hmem | hmem
      · exact hinv.opened t _ hopened i j ⟨stored, hmem, hother, hi, hj⟩
      · rw [List.map_singleton, List.mem_singleton] at hmem
        subst hmem
        cases object with
        | none =>
            cases hhandle
            exact absurd (.inl (by decide)) hother
        | some object =>
            obtain ⟨source, hsource, rfl⟩ := Option.map_eq_some_iff.mp hhandle
            have hfits : ∀ other, (⟨object, some source⟩ : CapturedHandle).lastModified =
                some other → other.thread < 256 := by
              rintro _ ⟨⟩
              exact hthread object source hsource
            obtain ⟨_, hsame, hne, hthread', hpacket⟩ := CapturedHandle.awaits hfits hother
            cases hsame
            obtain rfl : i = source.thread := hi.symm.trans hthread'
            obtain rfl : j = source.packet := hj.symm.trans hpacket
            -- the call that modified the object has returned
            rcases hinv.source object source hsource with hlt | ⟨heq, hsome⟩
            · exact hlt
            · simp only [SourceEnded, InProgress, hsource] at hsync
              exact absurd ⟨hne, hsome, heq⟩ hsync
  | modified t object hopened =>
      refine ⟨hinv.mem, hinv.closed, hinv.waits, hinv.opened, fun other source hsource => ?_⟩
      by_cases hobject : other = object
      · subst hobject
        simp only [Function.update_self] at hsource
        cases hsource
        exact .inr ⟨rfl, hopened⟩
      · simp only [Function.update_of_ne hobject] at hsource
        exact hinv.source other source hsource

theorem SourceEnded.quiet (hsync : SourceEnded s action)
    (hquiet : Quiet s next) : SourceEnded next action := by
  unfold SourceEnded at hsync ⊢
  split at hsync
  · simpa only [InProgress, hquiet.lastModified, hquiet.opened, hquiet.packet] using hsync
  · trivial

/-- **One action and the order.** -/
theorem step_orderInv (hwriters : WriterInv s) (hinv : OrderInv s)
    (hsync : SourceEnded s action) (hstep : step s action = some next) :
    OrderInv next := by
  obtain ⟨before, after, hbefore, hchange, hafter⟩ :=
    act_change hwriters.fresh (step_cases hstep).1
  refine OrderInv.quiet ?_ hafter
  refine hchange.orderInv (hinv.quiet hbefore) (fun i => ?_) (fun object source hsource => ?_)
    (hsync.quiet hbefore)
  · rw [hbefore.packet, hbefore.stream, hwriters.length]
  · rw [hbefore.lastModified] at hsource
    exact (hwriters.source object source hsource).trans_le hwriters.count_le

/-- **A run and the order**, where the sources of handles have been ended. -/
theorem exec_orderInv {actions : List Action} (hexec : exec step {} actions = some s)
    (hsync : Along step SourceEnded {} actions) : OrderInv s := by
  have hrun := exec_invariant
    (fun state _ _ (hstate : WriterInv state ∧ OrderInv state) hsync hstep =>
      ⟨step_writerInv hstate.1 hstep, step_orderInv hstate.1 hstate.2 hsync hstep⟩)
    ⟨writerInv_init, ⟨by simp, by simp, by simp, by simp, by simp⟩⟩ hsync hexec
  exact hrun.2

/-- **The packets of a captured trace can be replayed in the order in which they were
ended.** -/
theorem streams_wellOrdered {actions : List Action} (hexec : exec step {} actions = some s)
    (hsync : Along step SourceEnded {} actions) :
    WellOrdered s.count s.streams s.order := by
  have hwriters := exec_writerInv hexec
  have hinv := exec_orderInv hexec hsync
  have hlength : ∀ t, (s.streams t).length = (s.writers t).packet := by
    intro t
    rw [hwriters.length, State.streams, List.length_map]
  constructor
  case mem =>
    intro t k hk
    rw [hlength] at hk
    exact (hinv.mem t k).mpr hk
  case inside =>
    intro t k hmem
    have hk := (hinv.mem t k).mp hmem
    refine ⟨not_le.mp fun hge => ?_, by rwa [hlength]⟩
    rw [hwriters.fresh t hge] at hk
    cases hk
  case closed => exact hinv.closed
  case waits =>
    intro m t k packet hm hpacket i j hawaits
    simp only [State.streams, List.getElem?_map, Option.map_eq_some_iff] at hpacket
    obtain ⟨content, hcontent, rfl⟩ := hpacket
    exact hinv.waits m t k content hm hcontent i j hawaits

/-! ## What the application promises -/

/-- Thread `a` has packet `p` open. -/
def HasOpen (s : State) (a p : Nat) : Prop :=
  (s.writers a).packet = p ∧ (s.writers a).opened.isSome = true

instance (s : State) (a p : Nat) : Decidable (HasOpen s a p) :=
  inferInstanceAs (Decidable (_ ∧ _))

/-- A call of a thread, by its packet, uses an object. -/
structure Use where
  thread : Nat
  packet : Nat
  object : Nat
deriving DecidableEq, Repr

/-- What an action uses in the packet that is open: an object of which a handle is written, or
one that is modified. -/
def Action.use (s : State) : Action → Option Use
  | .writeHandle t (some object) | .modify t object => some ⟨t, (s.writers t).packet, object⟩
  | _ => none

/-- The actions of a run, with the states in which they are taken. -/
def visited : State → List Action → List (State × Action)
  | _, [] => []
  | s, action :: rest =>
      (s, action) ::
        match step s action with
        | none => []
        | some next => visited next rest

/-- The uses of a run. -/
def uses (actions : List Action) : List Use :=
  (visited {} actions).filterMap fun visit => visit.2.use visit.1

/-- The calls are in progress at the same time. -/
def CallsOverlap (actions : List Action) (use other : Use) : Prop :=
  ∃ visit ∈ visited {} actions, HasOpen visit.1 use.thread use.packet ∧
    HasOpen visit.1 other.thread other.packet

instance (actions : List Action) (use other : Use) :
    Decidable (CallsOverlap actions use other) :=
  inferInstanceAs (Decidable (∃ visit ∈ visited {} actions, _))

/-- **The promise**: no two overlapping calls share an object that one of them takes as externally
synchronised.  `external` says which objects a call takes so. -/
def ExternallySynchronised (external : Use → Prop) (actions : List Action) : Prop :=
  ∀ use ∈ uses actions, ∀ other ∈ uses actions, use.object = other.object →
    use.thread ≠ other.thread → external use → ¬ CallsOverlap actions use other

instance (external : Use → Prop) [DecidablePred external] (actions : List Action) :
    Decidable (ExternallySynchronised external actions) :=
  inferInstanceAs (Decidable (∀ use ∈ uses actions, ∀ other ∈ uses actions, _))

theorem mem_visited {start : State} {before rest : List Action}
    (hbefore : exec step start before = some s) :
    (s, action) ∈ visited start (before ++ action :: rest) := by
  induction before generalizing start with
  | nil =>
      cases hbefore
      exact List.mem_cons_self
  | cons first before ih =>
      obtain ⟨next, hstep, hmid⟩ := exec_cons_eq_some_iff.mp hbefore
      rw [List.cons_append, visited, hstep]
      exact List.mem_cons_of_mem _ (ih hmid)

theorem mem_uses {before rest : List Action} {use : Use} (hbefore : exec step {} before = some s)
    (huse : action.use s = some use) : use ∈ uses (before ++ action :: rest) :=
  List.mem_filterMap.mpr ⟨_, mem_visited hbefore, huse⟩

/-- Only `modify` changes what is known of an object. -/
theorem step_lastModified (hwriters : WriterInv s) (hstep : step s action = some next) :
    next.lastModified = s.lastModified ∨ ∃ t object, action = .modify t object ∧
      next.lastModified =
        Function.update s.lastModified object (some ⟨t, (s.writers t).packet⟩) := by
  obtain ⟨before, after, hbefore, hchange, hafter⟩ :=
    act_change hwriters.fresh (step_cases hstep).1
  rw [hafter.lastModified, ← hbefore.lastModified]
  cases hchange with
  | silent => exact .inl rfl
  | ended _ t => exact .inl endPacket_frame.2.1
  | begun _ t hbegin => exact .inl (beginPacket_frame hbegin).2.1
  | injected _ _ hinject => exact .inl (inject_frame hinject).2.1
  | handle t object handles handle hopened hhandle => exact .inl rfl
  | modified t object hopened => exact .inr ⟨t, object, rfl, by rw [hbefore.packet]⟩

/-- The last change of every object was a use in the run so far, of a kind. -/
def SourcesUsed (external : Use → Prop) (all : List Use) (s : State) : Prop :=
  ∀ object source, s.lastModified object = some source →
    ⟨source.thread, source.packet, object⟩ ∈ all ∧
      external ⟨source.thread, source.packet, object⟩

/-- **The promise and the sources.**  Where the application keeps its promise, and a call modifies
only objects that it takes as externally synchronised, the sources of handles have been ended. -/
theorem sourceEnded_of_externallySynchronised {external : Use → Prop} {actions : List Action}
    (hexec : exec step {} actions = some s) (hsync : ExternallySynchronised external actions)
    (hmodified : ∀ visit ∈ visited {} actions, ∀ t object, visit.2 = .modify t object →
      external ⟨t, (visit.1.writers t).packet, object⟩) :
    Along step SourceEnded {} actions := by
  suffices h : ∀ (rest before : List Action) (middle : State), actions = before ++ rest →
      exec step {} before = some middle → SourcesUsed external (uses actions) middle →
      Along step SourceEnded middle rest from
    h actions [] {} rfl rfl fun _ _ hsource => by cases hsource
  intro rest
  induction rest with
  | nil => exact fun _ _ _ _ _ => trivial
  | cons action rest ih =>
      intro before middle hactions hbefore hsources
      have hwriters := exec_writerInv hbefore
      have hvisit : (middle, action) ∈ visited {} actions := hactions ▸ mem_visited hbefore
      obtain ⟨next, hstep⟩ : ∃ next, step middle action = some next := by
        rw [hactions] at hexec
        obtain ⟨_, hfront, hrest⟩ := exec_append_eq_some_iff.mp hexec
        cases hbefore.symm.trans hfront
        obtain ⟨next, hnext, -⟩ := exec_cons_eq_some_iff.mp hrest
        exact ⟨next, hnext⟩
      refine ⟨?_, fun next' hnext => ?_⟩
      · cases action with
        | writeHandle t object =>
            cases object with
            | none => trivial
            | some object =>
                -- the source and this handle would be uses by two overlapping calls
                show ¬ InProgress middle t object
                unfold InProgress
                cases hsource : middle.lastModified object with
                | none => exact not_false
                | some source =>
                    rintro ⟨hother, hopened, hpacket⟩
                    obtain ⟨hused, hexternal⟩ := hsources object source hsource
                    obtain ⟨handles, -, hown, -, -⟩ := writeHandle_cases (step_cases hstep).1
                    have huse : (⟨t, (middle.writers t).packet, object⟩ : Use) ∈
                        uses actions := hactions ▸ mem_uses hbefore rfl
                    refine hsync _ hused _ huse rfl hother hexternal ⟨_, hvisit, ?_, ?_⟩
                    · exact ⟨hpacket.symm, hopened⟩
                    · exact ⟨rfl, by rw [hown]; rfl⟩
        | _ => trivial
      · cases hstep.symm.trans hnext
        refine ih (before ++ [action]) next (by simp [hactions])
          (exec_snoc_eq_some_iff.mpr ⟨middle, hbefore, hstep⟩) ?_
        intro object source hsource
        rcases step_lastModified hwriters hstep with hsame | ⟨t, changed, rfl, hchanged⟩
        · rw [hsame] at hsource
          exact hsources object source hsource
        · rw [hchanged] at hsource
          by_cases hobject : object = changed
          · subst hobject
            rw [Function.update_self] at hsource
            cases hsource
            exact ⟨hactions ▸ mem_uses hbefore rfl, hmodified _ hvisit t object rfl⟩
          · rw [Function.update_of_ne hobject] at hsource
            exact hsources object source hsource

/-! ## What replay waits for -/

/-- In the run, thread `t` writes handle `i` of its packet `q`, and `source` is the last change
of the object. -/
def WritesHandle (actions : List Action) (t q i : Nat) (source : ChangeSource) : Prop :=
  ∃ before after object middle handles,
    actions = before ++ .writeHandle t (some object) :: after ∧
      exec step {} before = some middle ∧ (middle.writers t).packet = q ∧
      (middle.writers t).opened = some (.call handles) ∧ handles.length = i ∧
      middle.lastModified object = some source

/-- The handle stays where it was written. -/
theorem WritesHandle.recorded {actions : List Action} {q : Nat} {source : ChangeSource}
    (hwrites : WritesHandle actions t q i source) (hexec : exec step {} actions = some s) :
    ∃ object handles, (s.writers t).packets[q]? = some (.call handles) ∧
      handles[i]? = some ⟨object, some source⟩ := by
  obtain ⟨before, after, object, middle, handles, rfl, hbefore, rfl, hopened, rfl, hsource⟩ :=
    hwrites
  obtain ⟨_, hfront, hrest⟩ := exec_append_eq_some_iff.mp hexec
  cases hbefore.symm.trans hfront
  obtain ⟨next, hstep, hafter⟩ := exec_cons_eq_some_iff.mp hrest
  have hwriters := exec_writerInv hbefore
  obtain ⟨handles', handle, hopened', hhandle, hnext⟩ := writeHandle_cases (step_cases hstep).1
  cases hopened.symm.trans hopened'
  simp only [captureHandle, hsource, Option.map_some, Option.some.injEq] at hhandle
  subst hhandle
  have hwritten : (next.writers t).packets[(middle.writers t).packet]? =
      some (.call (handles ++ [⟨object, some source⟩])) := by
    rw [hnext, setWriter_self, Writer.packets, hwriters.length, Option.toList_some,
      List.getElem?_concat_length]
  obtain ⟨more, hmore⟩ := (exec_later (step_writerInv hwriters hstep) hafter).handles t _ _
    hwritten
  refine ⟨object, _, hmore, ?_⟩
  rw [List.append_assoc, List.getElem?_append_right le_rfl, Nat.sub_self]
  rfl

/-- **What replay waits for**: a handle for the packet that last modified its object, if the
number of the thread fits an `int8_t`, and a barrier for the packets that were ended. -/
theorem handles_and_barriers_wait {actions : List Action} {schedule : List Nat}
    {replay : Replay.State} (hcapture : exec step {} actions = some s)
    (hreplay : exec (Replay.step s.count s.streams) (fun _ => {}) schedule = some replay) :
    (∀ t q i source, WritesHandle actions t q i source → source.thread ≠ t →
      source.thread < 128 → HasRead (s.streams t) (replay t) q i →
      ∀ k ≤ source.packet, k < (replay source.thread).completed) ∧
    ∀ t q indices, (s.writers t).stream[q]? = some (.threadBarrier indices) →
      q < (replay t).passed → ∀ i index, i ≠ t → indices[i]? = some index →
      ∀ k < index, k < (replay i).completed := by
  have hinv := Replay.exec_inv hreplay
  refine ⟨fun t q i source hwrites hother hfits hread k hk => ?_,
    fun t q indices hbarrier hpassed i index hother hindex k hk => ?_⟩
  · obtain ⟨object, handles, hpacket, hhandle⟩ := hwrites.recorded hcapture
    obtain ⟨_, hcall, -⟩ := id hread
    simp only [State.streams, List.getElem?_map, Option.map_eq_some_iff] at hcall
    obtain ⟨content, hcontent, -⟩ := hcall
    have hsame : (s.writers t).packets[q]? = some content := by
      rw [Writer.packets, List.getElem?_append_left (List.getElem?_eq_some_iff.mp hcontent).1,
        hcontent]
    cases hpacket.symm.trans hsame
    have hstored : (s.streams t)[q]? =
        some (.call (handles.map CapturedHandle.stored)) := by
      rw [State.streams, List.getElem?_map, hcontent]
      rfl
    have hentry : (handles.map CapturedHandle.stored)[i]? =
        some (⟨object, some source⟩ : CapturedHandle).stored := by
      rw [List.getElem?_map, hhandle, Option.map_some]
    have hpasses := (hinv t).hasRead hread hstored hentry
    have hthread : (⟨object, some source⟩ : CapturedHandle).stored.thread = source.thread :=
      writeInt8_of_lt hfits
    rcases hpasses with hown | hcompleted
    · -- the handle is not one of the thread's own
      rw [Handle.Own, hthread] at hown
      omega
    · rw [hthread, Int.toNat_natCast] at hcompleted
      exact hk.trans_lt hcompleted
  · have hstored : (s.streams t)[q]? = some (.threadBarrier indices) := by
      rw [State.streams, List.getElem?_map, hbarrier]
      rfl
    have hpasses := (hinv t).passed q _ hpassed hstored i index hindex
    exact hk.trans_le (hpasses.resolve_left hother)

/-- Thread 1 modifies an object in a call, and thread 0 uses it behind a barrier. -/
def twoThreads : List Action :=
  [.makeWriter true, .makeWriter true, .enter 1 false, .checkPending 1, .beginCall 1, .modify 1 7,
    .endPacket 1, .enter 0 true, .injectLocal 0, .checkPending 0, .beginCall 0,
    .writeHandle 0 (some 7), .endPacket 0]

theorem handles_and_barriers_wait_twoThreads : ∃ s replay, exec step {} twoThreads = some s ∧
    exec (Replay.step s.count s.streams) (fun _ => {})
      [0, 0, 0, 1, 1, 1, 1, 1, 1, 1, 1, 0, 0, 0, 0, 0, 0, 0, 0] = some replay ∧
    s.streams 0 = [.threadBarrier [], .threadBarrier [1, 2], .call [⟨7, 1, 1⟩]] ∧
    HasRead (s.streams 0) (replay 0) 2 0 ∧ 1 < (replay 1).completed := by
  obtain ⟨s, replay, middle, hcapture, hreplay, hstream, hreader, hbefore, hsource, hopened,
      hpacket⟩ : ∃ s replay middle, exec step {} twoThreads = some s ∧
        exec (Replay.step s.count s.streams) (fun _ => {})
          [0, 0, 0, 1, 1, 1, 1, 1, 1, 1, 1, 0, 0, 0, 0, 0, 0, 0, 0] = some replay ∧
        s.streams 0 = [.threadBarrier [], .threadBarrier [1, 2], .call [⟨7, 1, 1⟩]] ∧
        replay 0 = ⟨.handles [], true, 2⟩ ∧
        exec step {} (twoThreads.take 11) = some middle ∧
        middle.lastModified 7 = some ⟨1, 1⟩ ∧ (middle.writers 0).opened = some (.call []) ∧
        (middle.writers 0).packet = 2 :=
    ⟨_, _, _, rfl, rfl, rfl, rfl, rfl, rfl, rfl, rfl⟩
  have hwrites : WritesHandle twoThreads 0 2 0 ⟨1, 1⟩ :=
    ⟨_, [.endPacket 0], 7, middle, [], rfl, hbefore, hpacket, hopened, rfl, hsource⟩
  have hread : HasRead (s.streams 0) (replay 0) 2 0 := by
    rw [hstream, hreader]
    exact ⟨_, rfl, by decide, .inr ⟨rfl, [], rfl, by decide⟩⟩
  exact ⟨s, replay, hcapture, hreplay, hstream, hread,
    (handles_and_barriers_wait hcapture hreplay).1 0 2 0 ⟨1, 1⟩ hwrites (by decide) (by decide)
      hread 1 le_rfl⟩

/-- `n` threads that have not made a call yet. -/
def newThreads (n : Nat) : State where
  count := n
  writers t :=
    if t < n then { packet := 1, stream := [.threadBarrier (List.replicate t 1)] } else {}
  order := (List.range n).map fun t => (t, 0)

theorem packetIndices_newThreads (n : Nat) :
    packetIndices (newThreads n) = List.replicate n 1 := by
  refine List.eq_replicate_iff.mpr ⟨by simp [packetIndices, newThreads], fun index hmem => ?_⟩
  obtain ⟨t, ht, rfl⟩ := List.mem_map.mp hmem
  have hlt : t < n := List.mem_range.mp ht
  simp [newThreads, hlt]

theorem step_newThreads {n : Nat} (hn : n ≤ 255) :
    step (newThreads n) (.makeWriter true) = some (newThreads (n + 1)) := by
  have hfresh : (newThreads n).setWriter n {} = newThreads n := by
    have hsame : (newThreads n).writers n = {} := by simp [newThreads]
    rw [State.setWriter, ← hsame, Function.update_eq_self]
  have hassert : (packetIndices (newThreads n)).length ≤ 255 ∧
      ∀ index ∈ packetIndices (newThreads n), index ≠ 2 ^ 32 - 1 := by
    rw [packetIndices_newThreads]
    refine ⟨by simpa using hn, fun index hmem => ?_⟩
    rw [List.eq_of_mem_replicate hmem]
    decide
  have hinject : injectThreadBarrier (newThreads n) n =
      some { newThreads (n + 1) with count := n } := by
    rw [injectThreadBarrier, if_pos hassert, packetIndices_newThreads]
    have hclosed : ((newThreads n).writers n).opened = none := by simp [newThreads]
    have hzero : ((newThreads n).writers n).packet = 0 := by simp [newThreads]
    simp only [beginPacket, endPacket_of_closed hclosed, hzero]
    rw [if_pos (by decide), Option.map_some, endPacket_of_open (by rw [setWriter_self])]
    simp only [State.setWriter, Function.update_idem, newThreads]
    congr 2
    · funext t
      by_cases ht : t = n
      · subst ht
        simp
      · have hlt : t < n ↔ t < n + 1 := by omega
        simp [Function.update_of_ne ht, hlt]
    · simp [List.range_succ]
  show act (newThreads n) (.makeWriter true) = _
  simp only [act]
  have hcount : (newThreads n).count = n := rfl
  rw [hcount, hfresh, hinject]
  rfl

theorem exec_newThreads {n : Nat} (hn : n ≤ 256) :
    exec step {} (List.replicate n (.makeWriter true)) = some (newThreads n) := by
  induction n with
  | zero => rfl
  | succ n ih =>
      rw [List.replicate_succ']
      exact exec_snoc_eq_some_iff.mpr
        ⟨_, ih (by omega), step_newThreads (by omega)⟩

/-- Thread 128 modifies an object, and the first thread uses it. -/
def lateThreadCalls : List Action :=
  [.enter 128 false, .checkPending 128, .beginCall 128, .modify 128 7, .endPacket 128,
    .enter 0 false, .checkPending 0, .beginCall 0, .writeHandle 0 (some 7), .endPacket 0]

/-- The same, in a capture by 129 threads. -/
def manyThreads : List Action :=
  List.replicate 129 (.makeWriter true) ++ lateThreadCalls

/-- As an `int8_t` the number of the last thread is negative, and the handle is read as one of
the thread's own. -/
theorem handle_of_thread_128_not_waited_for : ∃ s replay, exec step {} manyThreads = some s ∧
    exec (Replay.step s.count s.streams) (fun _ => {}) [0, 0, 0, 0, 0, 0] = some replay ∧
    WritesHandle manyThreads 0 1 0 ⟨128, 1⟩ ∧ HasRead (s.streams 0) (replay 0) 1 0 ∧
    ¬ 1 < (replay 128).completed := by
  obtain ⟨s, replay, middle, hcalls, hreplay, hstream, hreader, hlast, hbefore, hsource, hopened,
      hpacket⟩ : ∃ s replay middle,
        exec step (newThreads 129) lateThreadCalls = some s ∧
        exec (Replay.step s.count s.streams) (fun _ => {}) [0, 0, 0, 0, 0, 0] = some replay ∧
        s.streams 0 = [.threadBarrier [], .call [⟨7, -128, 1⟩]] ∧
        replay 0 = ⟨.handles [], true, 1⟩ ∧ (replay 128).completed = 0 ∧
        exec step (newThreads 129) (lateThreadCalls.take 8) = some middle ∧
        middle.lastModified 7 = some ⟨128, 1⟩ ∧ (middle.writers 0).opened = some (.call []) ∧
        (middle.writers 0).packet = 1 :=
    ⟨_, _, _, rfl, rfl, rfl, rfl, rfl, rfl, rfl, rfl, rfl⟩
  have hnew := exec_newThreads (show 129 ≤ 256 by decide)
  refine ⟨s, replay, exec_append_eq_some_iff.mpr ⟨_, hnew, hcalls⟩, hreplay, ?_, ?_, ?_⟩
  · exact ⟨_, [.endPacket 0], 7, middle, [], rfl,
      exec_append_eq_some_iff.mpr ⟨_, hnew, hbefore⟩, hpacket, hopened, rfl, hsource⟩
  · rw [hstream, hreader]
    exact ⟨_, rfl, by decide, .inr ⟨rfl, [], rfl, by decide⟩⟩
  · rw [hlast]
    decide

/-- **Replay of a captured trace cannot deadlock**, if the sources of its handles have been
ended. -/
theorem replay_never_deadlocks {actions : List Action} {schedule : List Nat}
    {replay : Replay.State} (hcapture : exec step {} actions = some s)
    (hsync : Along step SourceEnded {} actions)
    (hreplay : exec (Replay.step s.count s.streams) (fun _ => {}) schedule = some replay)
    (ht : t < s.count) (hunfinished : (replay t).pc ≠ .finished) :
    ∃ u < s.count, (replay u).pc ≠ .finished ∧
      (Replay.move s.streams replay u).isSome = true :=
  Replay.exists_move (streams_wellOrdered hcapture hsync) hreplay ht hunfinished

theorem replay_never_deadlocks_twoThreads : ∃ s replay, exec step {} twoThreads = some s ∧
    exec (Replay.step s.count s.streams) (fun _ => {}) [0, 0, 0, 0, 0, 0] = some replay ∧
    Replay.move s.streams replay 0 = none ∧
    ∃ u < 2, (replay u).pc ≠ .finished ∧ (Replay.move s.streams replay u).isSome = true := by
  obtain ⟨s, replay, hcapture, hreplay, hcount, hwaits, hreader⟩ : ∃ s replay,
      exec step {} twoThreads = some s ∧
        exec (Replay.step s.count s.streams) (fun _ => {}) [0, 0, 0, 0, 0, 0] = some replay ∧
        s.count = 2 ∧ Replay.move s.streams replay 0 = none ∧
        replay 0 = ⟨.barrierWait [1, 2] 1, false, 2⟩ :=
    ⟨_, _, rfl, rfl, rfl, rfl, rfl⟩
  have hunfinished : (replay 0).pc ≠ .finished := by
    rw [hreader]
    decide
  have hmoves := replay_never_deadlocks hcapture (by decide) hreplay (by omega) hunfinished
  rw [hcount] at hmoves
  exact ⟨s, replay, hcapture, hreplay, hwaits, hmoves⟩

/-- Two threads record updates of buffer 7 into command buffers of their own, 5 and 6; the object
of the buffer is modified before its handle is written, as in `trace_vkCmdUpdateBuffer2ARM`. -/
def twoUpdates : List Action :=
  [.makeWriter true, .makeWriter true,
    -- the command buffers and the buffer are created
    .enter 0 false, .checkPending 0, .beginCall 0, .modify 0 5, .modify 0 6, .endPacket 0,
    .enter 0 false, .checkPending 0, .beginCall 0, .modify 0 7, .endPacket 0,
    -- an update of thread 1, and one of thread 0
    .enter 1 false, .checkPending 1, .beginCall 1, .writeHandle 1 (some 6), .modify 1 6,
    .modify 1 7,
    .enter 0 false, .checkPending 0, .beginCall 0, .writeHandle 0 (some 5), .modify 0 5,
    .modify 0 7,
    .writeHandle 1 (some 7), .endPacket 1,
    -- the next update of thread 1
    .enter 1 false, .checkPending 1, .beginCall 1, .writeHandle 1 (some 6), .modify 1 6,
    .modify 1 7,
    .writeHandle 0 (some 7), .endPacket 0, .writeHandle 1 (some 7), .endPacket 1]

/-- Only the command buffers are taken as externally synchronised, and no overlapping calls share
one, yet on replay each thread waits for the other. -/
theorem updates_of_one_buffer_deadlock :
    ExternallySynchronised (fun use => use.object = 5 ∨ use.object = 6) twoUpdates ∧
    ∃ s replay, exec step {} twoUpdates = some s ∧ s.count = 2 ∧
      exec (Replay.step s.count s.streams) (fun _ => {})
        [0, 0, 0, 0, 0, 0, 0, 0, 0, 0, 0, 0, 1, 1, 1, 1, 1, 1, 1] = some replay ∧
      ∀ u < s.count, (replay u).pc ≠ .finished ∧ Replay.move s.streams replay u = none := by
  refine ⟨by decide, _, _, rfl, rfl, rfl, ?_⟩
  decide

/-! ## Barriers that are pushed -/

/-- A packet of thread `b` waits for packet `p` of thread `a`. -/
def Barred (s : State) (a b p : Nat) : Prop :=
  ∃ (k : Nat) (indices : List Nat) (index : Nat),
    (s.writers b).stream[k]? = some (.threadBarrier indices) ∧
      indices[a]? = some index ∧ p < index

theorem Barred.later {a b p : Nat} (hbarred : Barred s a b p) (hlater : Later s next) :
    Barred next a b p := by
  obtain ⟨k, indices, index, hpacket, hindex⟩ := hbarred
  obtain ⟨more, hmore⟩ := hlater.stream b
  refine ⟨k, indices, index, ?_, hindex⟩
  rw [← hmore, List.getElem?_append_left (List.getElem?_eq_some_iff.mp hpacket).1, hpacket]

/-- The barrier of `write_api_command` has the packet numbers of the moment. -/
theorem injectPending_barred {a b p : Nat} (ha : a < s.count) (hp : p < (s.writers a).packet)
    (hact : act s (.injectPending b) = some next) : Barred next a b p := by
  obtain ⟨injected, hinject, rfl⟩ := Option.map_eq_some_iff.mp hact
  refine ⟨(s.writers b).packets.length, packetIndices s, _, ?_, ?_, hp⟩
  · rw [setWriter_self]
    show (injected.writers b).stream[_]? = _
    rw [inject_stream hinject, List.getElem?_concat_length]
  · simp [packetIndices, ha]

/-- **A pending barrier stays pending**, until the thread injects it; a thread does not begin
a call in between. -/
theorem step_pending {b : Nat} (hwriters : WriterInv s) (hstep : step s action = some next)
    (hpending : (s.writers b).pendingBarrier = true) : action = .injectPending b ∨
      (next.writers b).pendingBarrier = true ∧
        ((s.writers b).phase ≠ .beginning → (next.writers b).phase ≠ .beginning) := by
  have hact := (step_cases hstep).1
  by_cases hb : b = action.thread s
  · subst hb
    -- the thread itself: only an injection takes the flag back
    cases action with
    | makeWriter active =>
        simp only [Action.thread, hwriters.fresh s.count le_rfl] at hpending
        cases hpending
    | injectLocal t =>
        obtain ⟨injected, hinject, rfl⟩ := Option.map_eq_some_iff.mp hact
        simp only [Action.thread, setPhase, setWriter_self] at hpending ⊢
        exact .inr ⟨(inject_frame hinject).2.2.2.1.trans hpending, by simp⟩
    | injectPending t => exact .inl rfl
    | beginCall t =>
        obtain ⟨begun, hbegin, rfl⟩ := Option.map_eq_some_iff.mp hact
        simp only [Action.thread, setPhase, setWriter_self] at hpending ⊢
        exact .inr ⟨(beginPacket_frame hbegin).2.2.2.1.trans hpending, by simp⟩
    | beginUpdate t =>
        obtain ⟨-, -, -, hsame, hphase⟩ := beginPacket_frame hact
        exact .inr ⟨hsame.trans hpending, fun h => hphase.symm ▸ h⟩
    | writeHandle t object =>
        obtain ⟨_, _, -, -, rfl⟩ := writeHandle_cases hact
        simp only [Action.thread, setWriter_self] at hpending ⊢
        exact .inr ⟨hpending, id⟩
    | modify t object =>
        obtain ⟨-, rfl⟩ := modify_cases hact
        exact .inr ⟨hpending, id⟩
    | push t =>
        obtain ⟨-, rfl⟩ := push_cases hact
        simp only [Action.thread, pushThreadBarriers] at hpending ⊢
        simp [hpending]
    | endPacket t =>
        cases hact
        obtain ⟨-, -, -, hsame, hphase⟩ := endPacket_self (s := s) (t := t)
        exact .inr ⟨hsame.trans hpending, fun h => hphase.symm ▸ h⟩
    | activate t =>
        cases hact
        simp only [Action.thread, setWriter_self] at hpending ⊢
        exact .inr ⟨hpending, id⟩
    | enter t threadBarrier =>
        cases hact
        simp only [Action.thread, setPhase, setWriter_self] at hpending ⊢
        refine .inr ⟨hpending, fun _ => ?_⟩
        split <;> simp
    | checkPending t =>
        cases hact
        simp only [Action.thread, setPhase, setWriter_self] at hpending ⊢
        exact .inr ⟨hpending, fun _ => by simp [hpending]⟩
  · -- another thread can only set the flag
    rcases act_others hact hb with hsame | ⟨-, -, hpushed⟩
    · rw [hsame]
      exact .inr ⟨hpending, id⟩
    · rw [hpushed]
      exact .inr ⟨rfl, id⟩

/-- Packet `p` of thread `a` has been ended, and thread `b` has its barrier or has to inject
one. -/
structure Told (a b p : Nat) (s : State) : Prop where
  writers : WriterInv s
  thread : a < s.count
  ended : p < (s.writers a).packet
  barrier : Barred s a b p ∨ (s.writers b).pendingBarrier = true

/-- In addition, thread `b` does not begin a call without the barrier. -/
structure Due (a b p : Nat) (s : State) : Prop extends Told a b p s where
  ready : Barred s a b p ∨ (s.writers b).phase ≠ .beginning

/-- **One action of any thread**, for both. -/
theorem told_step {a b p : Nat} (htold : Told a b p s) (hstep : step s action = some next) :
    Told a b p next ∧ (Due a b p s → Due a b p next) := by
  have hlater := step_later htold.writers hstep
  have hthread : a < next.count := by
    rcases act_count (step_cases hstep).1 with hcount | ⟨-, hcount, -⟩
    · rw [hcount]
      exact htold.thread
    · rw [hcount]
      exact htold.thread.trans (Nat.lt_succ_self _)
  have hbarrier : Barred next a b p ∨ (next.writers b).pendingBarrier = true ∧
      ((s.writers b).phase ≠ .beginning → (next.writers b).phase ≠ .beginning) := by
    rcases htold.barrier with hbarred | hpending
    · exact .inl (hbarred.later hlater)
    · rcases step_pending htold.writers hstep hpending with rfl | hkept
      · exact .inl (injectPending_barred htold.thread htold.ended (step_cases hstep).1)
      · exact .inr hkept
  have hnext : Told a b p next := ⟨step_writerInv htold.writers hstep, hthread,
    htold.ended.trans_le (hlater.packet a), hbarrier.imp_right And.left⟩
  refine ⟨hnext, fun hdue => ⟨hnext, ?_⟩⟩
  rcases hdue.ready with hbarred | hphase
  · exact .inl (hbarred.later hlater)
  · exact hbarrier.imp_right fun hkept => hkept.2 hphase

theorem told_exec {a b p : Nat} {actions : List Action} (htold : Told a b p s)
    (hexec : exec step s actions = some next) : Told a b p next :=
  exec_invariant_of_step (fun _ _ _ htold hstep => (told_step htold hstep).1) htold hexec

theorem due_exec {a b p : Nat} {actions : List Action} (hdue : Due a b p s)
    (hexec : exec step s actions = some next) : Due a b p next :=
  exec_invariant_of_step (fun _ _ _ hdue hstep => (told_step hdue.toTold hstep).2 hdue)
    hdue hexec

/-- The flag is set by `push_thread_barriers`, and kept while the thread does not inject. -/
theorem pushed_pending {a b : Nat} {actions : List Action} (hwriters : WriterInv s)
    (hexists : b < s.count) (hactive : (s.writers b).threadBarriersActive = true)
    (hother : b ≠ a) (hinject : .injectPending b ∉ actions)
    (hexec : exec step s (.push a :: actions) = some next) :
    WriterInv next ∧ (next.writers b).pendingBarrier = true := by
  obtain ⟨pushed, hpush, hmid⟩ := exec_cons_eq_some_iff.mp hexec
  have hpending : (pushed.writers b).pendingBarrier = true := by
    obtain ⟨-, rfl⟩ := push_cases (step_cases hpush).1
    simp [pushThreadBarriers, hexists, hother, hactive]
  have hnone : Along step (fun _ action => action ≠ .injectPending b) pushed actions :=
    along_of_forall fun action hmem heq => hinject (heq ▸ hmem)
  have hrun := exec_invariant
    (fun state _ _ (hstate : WriterInv state ∧ (state.writers b).pendingBarrier = true)
        hnone hstep =>
      ⟨step_writerInv hstate.1 hstep,
        ((step_pending hstate.1 hstep hstate.2).resolve_left hnone).1⟩)
    ⟨step_writerInv hwriters hpush, hpending⟩ hnone hmid
  exact hrun

/-- **A pushed barrier is not lost**, if the other thread injects none between
`push_thread_barriers` and `end_packet` of the command. -/
theorem pushed_barrier_not_lost {a b p : Nat} {threadBarrier : Bool}
    {before command between call after : List Action} {s₀ s₁ s₂ s : State}
    {schedule : List Nat} {replay : Replay.State}
    (hbefore : exec step {} before = some s₀)
    (hcommand : exec step s₀ (.push a :: command) = some s₁)
    (hcall : exec step s₁ (.endPacket a :: between ++ .enter b threadBarrier :: call ++
      [.beginCall b]) = some s₂)
    (hafter : exec step s₂ after = some s)
    (hreplay : exec (Replay.step s.count s.streams) (fun _ => {}) schedule = some replay)
    (hreturns : HasOpen s₁ a p)
    (hexists : b < s₀.count) (hactive : (s₀.writers b).threadBarriersActive = true)
    (hother : b ≠ a) (hinject : .injectPending b ∉ command)
    (hstarted : (replay b).Started (s₂.writers b).packet) : p < (replay a).completed := by
  obtain ⟨hwriters, hpending⟩ :=
    pushed_pending (exec_writerInv hbefore) hexists hactive hother hinject hcommand
  obtain ⟨s₃, hcalled, hbegin⟩ := exec_snoc_eq_some_iff.mp hcall
  obtain ⟨s₄, hbetween, henter⟩ := exec_append_eq_some_iff.mp hcalled
  obtain ⟨ended, hend, hrest⟩ := exec_cons_eq_some_iff.mp hbetween
  obtain ⟨entered, hentered, hinside⟩ := exec_cons_eq_some_iff.mp henter
  -- the command returns
  have htold : Told a b p ended := by
    have hact := (step_cases hend).1
    have hthread : a < s₁.count := by
      rcases (step_cases hend).2 with ⟨active, hmake⟩ | ⟨hlt, -⟩
      · cases hmake
      · exact hlt
    refine ⟨step_writerInv hwriters hend, ?_, ?_, .inr ?_⟩
    · rcases act_count hact with hcount | ⟨⟨active, hmake⟩, -⟩
      · rw [hcount]
        exact hthread
      · cases hmake
    · cases hact
      obtain ⟨content, hopened⟩ := Option.isSome_iff_exists.mp hreturns.2
      rw [endPacket_self.2.2.1, hreturns.1, hopened]
      exact Nat.lt_succ_self p
    · rcases step_pending hwriters hend hpending with hwrong | hkept
      · cases hwrong
      · exact hkept.1
  -- thread `b` enters its call
  have hdue : Due a b p entered := by
    refine ⟨told_exec htold (exec_snoc_eq_some_iff.mpr ⟨s₄, hrest, hentered⟩), .inr ?_⟩
    cases (step_cases hentered).1
    simp only [setPhase, setWriter_self]
    split <;> simp
  have hbarred : Barred s₃ a b p := by
    have hphase : (s₃.writers b).phase = .beginning := by
      rcases (step_cases hbegin).2 with ⟨active, hmake⟩ | ⟨-, hphase⟩
      · cases hmake
      · exact hphase
    exact (due_exec hdue hinside).ready.resolve_right (not_not_intro hphase)
  -- the barrier is in front of the packet of the call
  have hwriters₃ := (due_exec hdue hinside).writers
  have hwriters₂ := step_writerInv hwriters₃ hbegin
  have hlater := step_later hwriters₃ hbegin
  obtain ⟨k, indices, index, hbarrier, hindex, hp⟩ := hbarred
  have hk : k < (s₂.writers b).packet := by
    refine Nat.lt_of_lt_of_le ?_ (hlater.packet b)
    rw [hwriters₃.length]
    exact (List.getElem?_eq_some_iff.mp hbarrier).1
  obtain ⟨more, hmore⟩ := (hlater.trans (exec_later hwriters₂ hafter)).stream b
  have hstored : (s.streams b)[k]? = some (.threadBarrier indices) := by
    rw [State.streams, List.getElem?_map, ← hmore,
      List.getElem?_append_left (List.getElem?_eq_some_iff.mp hbarrier).1, hbarrier]
    rfl
  have hinv := Replay.exec_inv hreplay b
  have hpassed := hinv.passed k _ (hk.trans_le (hstarted.le_passed hinv.place)) hstored a index
    hindex
  exact hp.trans_le (hpassed.resolve_left hother.symm)

/-- Two threads, of which thread 0 has packet 1 open. -/
def pushingCall : List Action :=
  [.makeWriter true, .makeWriter true, .enter 0 false, .checkPending 0, .beginCall 0]

theorem pushed_barrier_not_lost_injected : ∃ s₀ s₁ s₂ replay,
    exec step {} pushingCall = some s₀ ∧ exec step s₀ [.push 0] = some s₁ ∧
    exec step s₁ [.endPacket 0, .enter 1 false, .checkPending 1, .injectPending 1,
      .beginCall 1, .endPacket 1] = some s₂ ∧
    exec (Replay.step s₂.count s₂.streams) (fun _ => {})
      [0, 0, 0, 0, 0, 0, 0, 1, 1, 1, 1, 1, 1, 1, 1, 1, 1] = some replay ∧
    (replay 1).Started 2 ∧ 1 < (replay 0).completed := by
  obtain ⟨s₀, s₁, s₂, s, replay, hbefore, hcommand, hcall, hafter, hrun, hreplay, hreturns,
      hcount, hactive, hpacket, hreader⟩ : ∃ s₀ s₁ s₂ s replay,
      exec step {} pushingCall = some s₀ ∧ exec step s₀ [.push 0] = some s₁ ∧
      exec step s₁ (Action.endPacket 0 :: [] ++
        Action.enter 1 false :: [.checkPending 1, .injectPending 1] ++
        [Action.beginCall 1]) = some s₂ ∧
      exec step s₂ [.endPacket 1] = some s ∧
      exec step s₁ [.endPacket 0, .enter 1 false, .checkPending 1, .injectPending 1,
        .beginCall 1, .endPacket 1] = some s ∧
      exec (Replay.step s.count s.streams) (fun _ => {})
        [0, 0, 0, 0, 0, 0, 0, 1, 1, 1, 1, 1, 1, 1, 1, 1, 1] = some replay ∧
      HasOpen s₁ 0 1 ∧ s₀.count = 2 ∧ (s₀.writers 1).threadBarriersActive = true ∧
      (s₂.writers 1).packet = 2 ∧ replay 1 = ⟨.opened, true, 2⟩ :=
    ⟨_, _, _, _, _, rfl, rfl, rfl, rfl, rfl, rfl, ⟨rfl, rfl⟩, rfl, rfl, rfl, rfl⟩
  have hstarted : (replay 1).Started 2 := by
    rw [hreader]
    exact .inr ⟨rfl, rfl⟩
  exact ⟨s₀, s₁, s, replay, hbefore, hcommand, hrun, hreplay, hstarted,
    pushed_barrier_not_lost hbefore hcommand hcall hafter hreplay hreturns (by omega) hactive
      (by decide) (by decide) (hpacket ▸ hstarted)⟩

/-- Thread 1 injects its barrier before the command of thread 0 has been ended, and begins the
next call without one. -/
theorem pushed_barrier_lost : ∃ s₀ s₁ s₂ s replay, exec step {} pushingCall = some s₀ ∧
    exec step s₀ [.push 0, .enter 1 false, .checkPending 1, .injectPending 1, .beginCall 1] =
      some s₁ ∧
    exec step s₁ [.endPacket 0, .endPacket 1, .enter 1 false, .checkPending 1, .beginCall 1] =
      some s₂ ∧
    exec step s₂ [.endPacket 1] = some s ∧
    exec (Replay.step s.count s.streams) (fun _ => {})
      [0, 0, 0, 1, 1, 1, 1, 1, 1, 1, 1, 1, 1, 1, 1, 1] = some replay ∧
    HasOpen s₀ 0 1 ∧ HasOpen s₁ 0 1 ∧ HasOpen s₂ 1 3 ∧ 1 < s₀.count ∧
    (s₀.writers 1).threadBarriersActive = true ∧
    (replay 1).Started 3 ∧ ¬ 1 < (replay 0).completed :=
  ⟨_, _, _, _, _, rfl, rfl, rfl, rfl, rfl, ⟨rfl, rfl⟩, ⟨rfl, rfl⟩, ⟨rfl, rfl⟩, by decide, rfl,
    .inr ⟨rfl, rfl⟩, by decide⟩

end

end Capture
end Lavatube
