import Lavatube.Capture
import Lavatube.ReplayDiagnostics

/-!
# The diagnosis of a running replay

A reader that has to wait publishes for what: the thread, the packet, and then its state.  The
service reads these of one thread after the other, each of them by itself, and the threads go on in
the meantime; so no state of the replay has to be the one that the snapshot shows.  A load or store
is one step here and all see it at once, where the source has relaxed and acquire-release atomics.
Readers of an isolated run, which wait for nothing, are left out.

* `Published`, `Stage`, `readerStep` — a reader that publishes its waits.
* `Diagnosis`, `load` — the service, one value after the other.
* `ThreadInv`, `Inv` — a published wait is the wait of the reader.
* `Unbroken` — a reader that stands where its snapshot has it.
* `Circle.stays` — readers that wait in a circle never go on.
* `reported_threads_never_move` — threads that are reported do.
* `hanging_replay_is_reported` — and where the replay hangs, some are.
* `captured_trace_is_not_reported` — never for a captured trace whose sources had been ended.
-/

namespace Lavatube
namespace PublishedWaits

open Transition Replay ReplayDiagnostics SuccessorGraph

/-! ## Readers -/

/-- A wait for a packet of another thread. -/
structure Wait where
  state : ThreadState
  thread : Int
  packet : Nat
deriving DecidableEq, Repr

/-- The wait in which a reader stands. -/
def waitOf (s : Replay.State) (t : Nat) : Option Wait :=
  match (s t).pc with
  | .handles (handle :: _) =>
      if handle.Own t then none else some ⟨.waitHandle, handle.thread, handle.packet⟩
  | .barrierWait indices next =>
      match indices[next]? with
      | none => none
      | some index => if next = t then none else some ⟨.waitBarrier, next, index⟩
  | _ => none

/-- The condition of the loop does not hold any more. -/
def Wait.Over (wait : Wait) (completed : Nat → Nat) : Prop :=
  if wait.state = .waitBarrier then wait.packet ≤ completed wait.thread.toNat
  else wait.packet < completed wait.thread.toNat

instance (wait : Wait) (completed : Nat → Nat) : Decidable (wait.Over completed) :=
  inferInstanceAs (Decidable (if wait.state = .waitBarrier then
    wait.packet ≤ completed wait.thread.toNat else wait.packet < completed wait.thread.toNat))

/-- `cli_state`, `cli_wait_thread` and `cli_wait_packet` of a reader. -/
structure Published where
  state : ThreadState := .notStarted
  waitThread : Int := -1
  waitPacket : Nat := noPacket
deriving DecidableEq, Repr

/-- Where a reader stands in a wait: in front of it, at one of the three stores, in the loop, or
behind the loop with `running` not stored yet. -/
inductive Stage where
  | free
  | storeThread
  | storePacket
  | storeState
  | spinning (publishWait : Bool)
  | leaving
deriving DecidableEq, Repr

/-- What a thread has besides its reader. -/
structure Thread where
  stage : Stage := .free
  published : Published := {}
deriving DecidableEq, Repr

/-- Which value of a thread is loaded next. -/
inductive Field where
  | state
  | completedPacket
  | waitThread
  | waitPacket
deriving DecidableEq, Repr

/-- `replay_diagnostics_snapshot_threads` at work: the snapshots that are complete, and the one
that is not. -/
structure Diagnosis where
  snapshots : List Snapshot := []
  current : Snapshot := {}
  field : Field := .state
deriving DecidableEq, Repr

/-- A replay with a service. -/
structure Session where
  readers : Replay.State := fun _ => {}
  threads : Nat → Thread := fun _ => {}
  diagnosis : Diagnosis := {}

/-- Change what a thread has besides its reader. -/
def Session.setThread (s : Session) (t : Nat) (thread : Thread) : Session :=
  { s with threads := Function.update s.threads t thread }

/-- The reader itself takes a step. -/
def Session.goOn (threadCount : Nat) (streams : Nat → List Packet) (s : Session) (t : Nat)
    (thread : Thread) : Option Session :=
  (Replay.step threadCount streams s.readers t).map fun readers =>
    { s.setThread t thread with readers := readers }

/-- One step of a reader, with `cli_service` set. -/
def readerStep (threadCount : Nat) (streams : Nat → List Packet) (s : Session) (t : Nat) :
    Option Session :=
  let thread := s.threads t
  if t < threadCount then
    match waitOf s.readers t, thread.stage with
    | none, .free => s.goOn threadCount streams t thread
    | none, _ => none
    | some wait, .free =>
        -- `publish_wait`
        let publishWait := ¬ wait.Over (counters s.readers)
        some (s.setThread t { thread with
          stage := if publishWait then .storeThread else .spinning false })
    | some wait, .storeThread =>
        some (s.setThread t { stage := .storePacket
                              published := { thread.published with waitThread := wait.thread } })
    | some wait, .storePacket =>
        some (s.setThread t { stage := .storeState
                              published := { thread.published with waitPacket := wait.packet } })
    | some wait, .storeState =>
        some (s.setThread t { stage := .spinning true
                              published := { thread.published with state := wait.state } })
    | some wait, .spinning publishWait =>
        if ¬ wait.Over (counters s.readers) then none
        else if publishWait then some (s.setThread t { thread with stage := .leaving })
        else s.goOn threadCount streams t { thread with stage := .free }
    | some _, .leaving =>
        s.goOn threadCount streams t
          { stage := .free, published := { thread.published with state := .running } }
  else
    none

/-- Outside of these waits a thread publishes other states, such as the waits for a fence. -/
def announce (threadCount : Nat) (s : Session) (t : Nat) (published : Published) :
    Option Session :=
  if t < threadCount ∧ (s.threads t).stage = .free ∧ isThreadWait published.state = false then
    some (s.setThread t { stage := .free, published := published })
  else
    none

/-! ## The service -/

/-- The next load of the service. -/
def load (threadCount : Nat) (s : Session) : Option Session :=
  let diagnosis := s.diagnosis
  let t := diagnosis.snapshots.length
  let published := (s.threads t).published
  if t < threadCount then
    match diagnosis.field with
    | .state =>
        some { s with diagnosis := { diagnosis with
          current := { thread := t, state := published.state }, field := .completedPacket } }
    | .completedPacket =>
        let completed := counters s.readers t % 2 ^ 32
        some { s with diagnosis := { diagnosis with
          current := { diagnosis.current with completedPacket := completed }
          field := .waitThread } }
    | .waitThread =>
        some { s with diagnosis := { diagnosis with
          current := { diagnosis.current with waitThread := published.waitThread }
          field := .waitPacket } }
    | .waitPacket =>
        let snapshot := { diagnosis.current with waitPacket := published.waitPacket }
        some { s with diagnosis := { snapshots := diagnosis.snapshots ++ [snapshot] } }
  else
    none

/-- What happens in a replay with a service. -/
inductive Event where
  | reader (t : Nat)
  | announce (t : Nat) (published : Published)
  | load
deriving DecidableEq, Repr

/-- One event. -/
def step (threadCount : Nat) (streams : Nat → List Packet) (s : Session) :
    Event → Option Session
  | .reader t => readerStep threadCount streams s t
  | .announce t published => announce threadCount s t published
  | .load => load threadCount s

/-- No thread changes what it has published between two loads of that. -/
def Undisturbed (s : Session) : Event → Prop
  | .reader t | .announce t _ =>
      s.diagnosis.field = .state ∨ t ≠ s.diagnosis.snapshots.length
  | .load => True

instance (s : Session) : (event : Event) → Decidable (Undisturbed s event)
  | .reader t | .announce t _ =>
      inferInstanceAs (Decidable (s.diagnosis.field = .state ∨ t ≠ s.diagnosis.snapshots.length))
  | .load => inferInstanceAs (Decidable True)

/-! ## A wait of a reader -/

section

variable {threadCount : Nat} {streams : Nat → List Packet} {s next final : Session}
  {readers : Replay.State} {t : Nat} {wait : Wait} {completed later : Nat → Nat}

theorem Wait.Over.mono (hover : wait.Over completed)
    (hlater : completed wait.thread.toNat ≤ later wait.thread.toNat) : wait.Over later := by
  unfold Wait.Over at hover ⊢
  split_ifs at hover ⊢ <;> omega

theorem waitOf_congr {other : Replay.State} (hsame : other t = readers t) :
    waitOf other t = waitOf readers t := by
  unfold waitOf
  rw [hsame]

/-- A reader in a wait is at a handle of another thread, or at another thread of a barrier. -/
theorem waitOf_cases (hwait : waitOf readers t = some wait) :
    (∃ handle left, (readers t).pc = .handles (handle :: left) ∧ ¬ handle.Own t ∧
      wait = ⟨.waitHandle, handle.thread, handle.packet⟩) ∨
    ∃ indices next index, (readers t).pc = .barrierWait indices next ∧
      indices[next]? = some index ∧ next ≠ t ∧ wait = ⟨.waitBarrier, next, index⟩ := by
  unfold waitOf at hwait
  split at hwait
  · case _ handle left hpc =>
      split_ifs at hwait with hown
      cases hwait
      exact .inl ⟨handle, left, hpc, hown, rfl⟩
  · case _ indices next hpc =>
      split at hwait
      · cases hwait
      · case _ index hindex =>
          split_ifs at hwait with hsame
          cases hwait
          exact .inr ⟨indices, next, index, hpc, hindex, hsame, rfl⟩
  · cases hwait

/-- **A reader in a wait goes on** just if the wait is over. -/
theorem move_isSome_iff (hwait : waitOf readers t = some wait) :
    (move streams readers t).isSome = true ↔ wait.Over (counters readers) := by
  unfold move Wait.Over
  rcases waitOf_cases hwait with ⟨handle, left, hpc, hother, rfl⟩ | ⟨_, _, _, hpc, hindex, hother, rfl⟩
  · simp [hpc, handlePasses, hother]
  · simp [hpc, hindex, barrierPasses, hother]

/-- A reader that is neither in a wait nor at its end goes on. -/
theorem move_isSome_of_free (hinv : ReaderInv (streams t) (counters readers) t (readers t))
    (hwait : waitOf readers t = none) (hunfinished : (readers t).pc ≠ .finished) :
    (move streams readers t).isSome = true := by
  by_contra hblocked
  rw [Bool.not_eq_true, Option.isSome_eq_false_iff, Option.isNone_iff_eq_none] at hblocked
  have hplace := hinv.place
  unfold Place at hplace
  unfold waitOf at hwait
  unfold move at hblocked
  -- only a handle and a barrier can hold a reader up, and both would be a wait
  cases hpc : (readers t).pc with
  | idle =>
      simp only [hpc] at hblocked
      split at hblocked <;> cases hblocked
  | opened =>
      simp only [hpc] at hplace hblocked
      rw [List.getElem?_eq_getElem hplace.2] at hblocked
      split at hblocked <;> simp_all
  | handles left =>
      cases left with
      | nil =>
          simp only [hpc] at hblocked
          cases hblocked
      | cons handle left => simp_all [handlePasses]
  | barrierWait indices next =>
      simp only [hpc] at hwait hblocked
      cases hindex : indices[next]? with
      | none =>
          simp only [hindex] at hblocked
          cases hblocked
      | some index => simp_all [barrierPasses]
  | finished => exact hunfinished hpc

/-- For what a reader waits: a packet that the thread it waits for has in front of it. -/
theorem waitOf_awaits (hinv : ReaderInv (streams t) (counters readers) t (readers t))
    (hwait : waitOf readers t = some wait) (hblocked : ¬ wait.Over (counters readers)) :
    0 ≤ wait.thread ∧ ∃ packet j, (streams t)[(readers t).passed]? = some packet ∧
      Awaits t packet wait.thread.toNat j ∧ (readers wait.thread.toNat).completed ≤ j ∧
        wait.packet ≤ j + 1 := by
  have hplace := hinv.place
  unfold Place at hplace
  unfold Wait.Over counters at hblocked
  rcases waitOf_cases hwait with ⟨handle, left, hpc, hother, rfl⟩ | ⟨indices, next, index, hpc, hindex, hother, rfl⟩
  · simp only [hpc] at hplace
    obtain ⟨-, done, hpacket, -⟩ := hplace
    have hpassed : (readers t).passed = (readers t).completed := by simp [Reader.passed, hpc]
    refine ⟨not_lt.mp fun hnegative => hother (.inl hnegative), .call (done ++ handle :: left),
      handle.packet, hpassed ▸ hpacket, ?_, by simpa using hblocked, Nat.le_succ _⟩
    exact ⟨handle, by simp, hother, rfl, rfl⟩
  · simp only [hpc] at hplace
    obtain ⟨-, k, hcompleted, hpacket, -⟩ := hplace
    have hpassed : (readers t).passed = k := by simp [Reader.passed, hpc, hcompleted]
    have hlt : (readers next).completed < index := by simpa using hblocked
    refine ⟨Int.natCast_nonneg next, .threadBarrier indices, index - 1, hpassed ▸ hpacket, ?_, ?_,
      ?_⟩
    · exact ⟨hother, index, hindex, by omega⟩
    · show (readers next).completed ≤ index - 1
      omega
    · show index ≤ index - 1 + 1
      omega

/-- A reader in a wait has no packet behind it whose wait is not over. -/
theorem passed_le_of_waitOf (hwait : waitOf readers t = some wait) :
    (readers t).passed ≤ (readers t).completed := by
  unfold Reader.passed
  rcases waitOf_cases hwait with ⟨_, _, hpc, -⟩ | ⟨_, _, _, hpc, -⟩
  · rw [hpc]
  · rw [hpc]
    exact Nat.sub_le _ _

/-! ## What a step does -/

/-- Steps in which a thread comes to a wait, publishes it, or leaves the loop. -/
inductive Publishes (readers : Replay.State) (t : Nat) (wait : Wait) : Thread → Thread → Prop
  | enter (published : Published) : ¬ wait.Over (counters readers) →
      Publishes readers t wait ⟨.free, published⟩ ⟨.storeThread, published⟩
  | pass (published : Published) : wait.Over (counters readers) →
      Publishes readers t wait ⟨.free, published⟩ ⟨.spinning false, published⟩
  | storeThread (published : Published) : Publishes readers t wait ⟨.storeThread, published⟩
      ⟨.storePacket, { published with waitThread := wait.thread }⟩
  | storePacket (published : Published) : Publishes readers t wait ⟨.storePacket, published⟩
      ⟨.storeState, { published with waitPacket := wait.packet }⟩
  | storeState (published : Published) : Publishes readers t wait ⟨.storeState, published⟩
      ⟨.spinning true, { published with state := wait.state }⟩
  | leave (published : Published) : wait.Over (counters readers) →
      Publishes readers t wait ⟨.spinning true, published⟩ ⟨.leaving, published⟩

/-- Steps of the reader itself. -/
inductive GoesOn (readers : Replay.State) (t : Nat) : Thread → Thread → Prop
  | free (published : Published) : waitOf readers t = none →
      GoesOn readers t ⟨.free, published⟩ ⟨.free, published⟩
  | passed (published : Published) : GoesOn readers t ⟨.spinning false, published⟩
      ⟨.free, published⟩
  | resumed (published : Published) : GoesOn readers t ⟨.leaving, published⟩
      ⟨.free, { published with state := .running }⟩

theorem goOn_cases {thread : Thread} (hgo : s.goOn threadCount streams t thread = some next) :
    ∃ readers, Replay.step threadCount streams s.readers t = some readers ∧
      next = { s.setThread t thread with readers := readers } := by
  obtain ⟨readers, hstep, rfl⟩ := Option.map_eq_some_iff.mp hgo
  exact ⟨readers, hstep, rfl⟩

/-- **What a step of a reader does.** -/
theorem readerStep_cases (hstep : readerStep threadCount streams s t = some next) :
    (∃ wait thread, waitOf s.readers t = some wait ∧
      Publishes s.readers t wait (s.threads t) thread ∧ next = s.setThread t thread) ∨
    ∃ thread readers, GoesOn s.readers t (s.threads t) thread ∧
      Replay.step threadCount streams s.readers t = some readers ∧
      next = { s.setThread t thread with readers := readers } := by
  unfold readerStep at hstep
  rcases hthread : s.threads t with ⟨stage, published⟩
  dsimp only at hstep
  split_ifs at hstep with ht
  cases hwait : waitOf s.readers t with
  | none =>
      cases stage with
      | free =>
          simp only [hthread, hwait] at hstep
          obtain ⟨readers, hmove, rfl⟩ := goOn_cases hstep
          exact .inr ⟨_, readers, .free published hwait, hmove, rfl⟩
      | _ =>
          simp only [hthread, hwait] at hstep
          cases hstep
  | some wait =>
      cases stage with
      | free =>
          simp only [hthread, hwait, Option.some.injEq] at hstep
          subst hstep
          refine .inl ⟨wait, _, rfl, ?_, rfl⟩
          split_ifs with hover
          · exact .pass published hover
          · exact .enter published hover
      | storeThread =>
          simp only [hthread, hwait, Option.some.injEq] at hstep
          exact .inl ⟨wait, _, rfl, .storeThread published, hstep.symm⟩
      | storePacket =>
          simp only [hthread, hwait, Option.some.injEq] at hstep
          exact .inl ⟨wait, _, rfl, .storePacket published, hstep.symm⟩
      | storeState =>
          simp only [hthread, hwait, Option.some.injEq] at hstep
          exact .inl ⟨wait, _, rfl, .storeState published, hstep.symm⟩
      -- the wait is asked again until it is over
      | spinning publishWait =>
          simp only [hthread, hwait] at hstep
          split_ifs at hstep with hover hpublish
          · cases hstep
            subst hpublish
            exact .inl ⟨wait, _, rfl, .leave published hover, rfl⟩
          · rw [Bool.not_eq_true] at hpublish
            subst hpublish
            obtain ⟨readers, hmove, rfl⟩ := goOn_cases hstep
            exact .inr ⟨_, readers, .passed published, hmove, rfl⟩
      | leaving =>
          simp only [hthread, hwait] at hstep
          obtain ⟨readers, hmove, rfl⟩ := goOn_cases hstep
          exact .inr ⟨_, readers, .resumed published, hmove, rfl⟩

theorem announce_cases {published : Published}
    (hstep : announce threadCount s t published = some next) :
    (s.threads t).stage = .free ∧ isThreadWait published.state = false ∧
      next = s.setThread t ⟨.free, published⟩ := by
  unfold announce at hstep
  split_ifs at hstep with hfree
  cases hstep
  exact ⟨hfree.2.1, hfree.2.2, rfl⟩

/-- What a load leaves alone, and the snapshots behind it. -/
theorem load_cases (hstep : load threadCount s = some next) :
    next.readers = s.readers ∧ next.threads = s.threads ∧
      s.diagnosis.snapshots.length < threadCount ∧
      (next.diagnosis.snapshots = s.diagnosis.snapshots ∨
        s.diagnosis.field = .waitPacket ∧ next.diagnosis.field = .state ∧
          next.diagnosis.snapshots = s.diagnosis.snapshots ++
            [{ s.diagnosis.current with
              waitPacket := (s.threads s.diagnosis.snapshots.length).published.waitPacket }]) := by
  unfold load at hstep
  dsimp only at hstep
  split_ifs at hstep with ht
  cases hfield : s.diagnosis.field with
  | waitPacket =>
      simp only [hfield, Option.some.injEq] at hstep
      subst hstep
      exact ⟨rfl, rfl, ht, .inr ⟨rfl, rfl, rfl⟩⟩
  | _ =>
      simp only [hfield, Option.some.injEq] at hstep
      subst hstep
      exact ⟨rfl, rfl, ht, .inl rfl⟩

/-- A step of the replay itself. -/
theorem replayStep_cases {other : Replay.State}
    (hstep : Replay.step threadCount streams readers t = some other) :
    ∃ reader, move streams readers t = some reader ∧ other = Function.update readers t reader := by
  unfold Replay.step at hstep
  split_ifs at hstep
  obtain ⟨reader, hmove, rfl⟩ := Option.map_eq_some_iff.mp hstep
  exact ⟨reader, hmove, rfl⟩

/-! ## What is published -/

/-- What a thread has published, by its stage. -/
def ThreadInv (readers : Replay.State) (t : Nat) (thread : Thread) : Prop :=
  match thread.stage with
  | .free => isThreadWait thread.published.state = false
  | .storeThread => isThreadWait thread.published.state = false ∧
      ∃ wait, waitOf readers t = some wait
  | .storePacket => isThreadWait thread.published.state = false ∧
      ∃ wait, waitOf readers t = some wait ∧ thread.published.waitThread = wait.thread
  | .storeState => isThreadWait thread.published.state = false ∧
      ∃ wait, waitOf readers t = some wait ∧ thread.published.waitThread = wait.thread ∧
        thread.published.waitPacket = wait.packet
  | .spinning true =>
      waitOf readers t = some ⟨thread.published.state, thread.published.waitThread,
        thread.published.waitPacket⟩
  | .spinning false => isThreadWait thread.published.state = false ∧
      ∃ wait, waitOf readers t = some wait ∧ wait.Over (counters readers)
  | .leaving => ∃ wait, waitOf readers t = some wait ∧ wait.Over (counters readers) ∧
      thread.published = ⟨wait.state, wait.thread, wait.packet⟩

/-- What holds in every state of a replay with a service. -/
structure Inv (streams : Nat → List Packet) (s : Session) : Prop where
  readers : ∀ i, ReaderInv (streams i) (counters s.readers) i (s.readers i)
  threads : ∀ i, ThreadInv s.readers i (s.threads i)

theorem ThreadInv.mono {other : Replay.State} {thread : Thread}
    (hinv : ThreadInv readers t thread) (hsame : other t = readers t)
    (hlater : ∀ i, counters readers i ≤ counters other i) : ThreadInv other t thread := by
  have hwait := waitOf_congr hsame
  unfold ThreadInv at hinv ⊢
  cases hstage : thread.stage with
  | free =>
      simp only [hstage] at hinv ⊢
      exact hinv
  | spinning publishWait =>
      cases publishWait with
      | true =>
          simp only [hstage, hwait] at hinv ⊢
          exact hinv
      | false =>
          simp only [hstage, hwait] at hinv ⊢
          obtain ⟨hstate, wait, hthere, hover⟩ := hinv
          exact ⟨hstate, wait, hthere, hover.mono (hlater _)⟩
  | leaving =>
      simp only [hstage, hwait] at hinv ⊢
      obtain ⟨wait, hthere, hover, hpublished⟩ := hinv
      exact ⟨wait, hthere, hover.mono (hlater _), hpublished⟩
  | _ =>
      simp only [hstage, hwait] at hinv ⊢
      exact hinv

/-- A published wait is the wait of the reader. -/
theorem ThreadInv.waitOf_eq {thread : Thread} (hinv : ThreadInv readers t thread)
    (hpublished : isThreadWait thread.published.state = true) :
    waitOf readers t = some ⟨thread.published.state, thread.published.waitThread,
      thread.published.waitPacket⟩ := by
  unfold ThreadInv at hinv
  cases hstage : thread.stage with
  | spinning publishWait =>
      cases publishWait with
      | true => simpa only [hstage] using hinv
      | false => simp [hstage, hpublished] at hinv
  | leaving =>
      simp only [hstage] at hinv
      obtain ⟨wait, hwait, -, heq⟩ := hinv
      rw [heq, hwait]
  | _ => simp [hstage, hpublished] at hinv

theorem Publishes.inv {thread other : Thread} (h : Publishes readers t wait thread other)
    (hwait : waitOf readers t = some wait) (hinv : ThreadInv readers t thread) :
    ThreadInv readers t other := by
  cases h with
  | enter published hblocked => exact ⟨hinv, wait, hwait⟩
  | pass published hover => exact ⟨hinv, wait, hwait, hover⟩
  | storeThread published => exact ⟨hinv.1, wait, hwait, rfl⟩
  | storePacket published =>
      obtain ⟨hstate, other, hother, hthread⟩ := hinv
      cases hwait.symm.trans hother
      exact ⟨hstate, wait, hwait, hthread, rfl⟩
  | storeState published =>
      obtain ⟨-, other, hother, hthread, hpacket⟩ := hinv
      cases hwait.symm.trans hother
      show waitOf readers t = some ⟨wait.state, published.waitThread, published.waitPacket⟩
      rw [hthread, hpacket, hwait]
  | leave published hover =>
      cases hwait.symm.trans hinv
      exact ⟨_, hinv, hover, rfl⟩

theorem GoesOn.inv {other : Replay.State} {thread after : Thread}
    (h : GoesOn readers t thread after) (hinv : ThreadInv readers t thread) :
    ThreadInv other t after := by
  cases h with
  | free published hwait => exact hinv
  | passed published => exact hinv.1
  | resumed published => rfl

/-- A reader only goes on without a wait, or when its wait is over. -/
theorem counters_le (hinv : ReaderInv (streams t) (counters readers) t (readers t))
    {other : Replay.State} (hstep : Replay.step threadCount streams readers t = some other)
    (i : Nat) : counters readers i ≤ counters other i := by
  obtain ⟨reader, hmove, rfl⟩ := replayStep_cases hstep
  unfold counters
  by_cases hi : i = t
  · subst hi
    rw [Function.update_self]
    exact (move_inv hinv hmove).2
  · rw [Function.update_of_ne hi]

/-- **One event keeps the invariant.** -/
theorem step_inv (hinv : Inv streams s) {event : Event}
    (hstep : step threadCount streams s event = some next) : Inv streams next := by
  -- a step that only publishes changes one thread
  have hset : ∀ {t thread}, ThreadInv s.readers t thread → Inv streams (s.setThread t thread) := by
    intro t thread hthread
    refine ⟨hinv.readers, fun i => ?_⟩
    show ThreadInv s.readers i (Function.update s.threads t thread i)
    by_cases hi : i = t
    · subst hi
      rwa [Function.update_self]
    · rw [Function.update_of_ne hi]
      exact hinv.threads i
  cases event with
  | reader t =>
      rcases readerStep_cases hstep with ⟨wait, thread, hwait, hpublishes, rfl⟩ |
        ⟨thread, readers, hgoes, hmove, rfl⟩
      · exact hset (hpublishes.inv hwait (hinv.threads t))
      · have hlater := counters_le (hinv.readers t) hmove
        refine ⟨Replay.step_inv hinv.readers hmove, fun i => ?_⟩
        show ThreadInv readers i (Function.update s.threads t thread i)
        by_cases hi : i = t
        · subst hi
          rw [Function.update_self]
          exact hgoes.inv (hinv.threads i)
        · obtain ⟨reader, -, rfl⟩ := replayStep_cases hmove
          rw [Function.update_of_ne hi]
          exact (hinv.threads i).mono (Function.update_of_ne hi _ _) hlater
  | announce t published =>
      obtain ⟨-, hstate, rfl⟩ := announce_cases hstep
      exact hset hstate
  | load =>
      obtain ⟨hreaders, hthreads, -⟩ := load_cases hstep
      exact ⟨hreaders ▸ hinv.readers, hreaders ▸ hthreads ▸ hinv.threads⟩

theorem inv_init (streams : Nat → List Packet) : Inv streams {} := by
  refine ⟨fun i => ⟨fun k packet hk => ?_, Nat.zero_le _⟩, fun _ => rfl⟩
  exact absurd hk (Nat.not_lt_zero k)

theorem exec_inv {events : List Event}
    (hexec : exec (step threadCount streams) {} events = some s) : Inv streams s :=
  exec_invariant_of_step (fun _ _ _ hinv hstep => step_inv hinv hstep) (inv_init streams) hexec

/-! ## What has been loaded -/

/-- The values of a thread that have been loaded are the ones that it has. -/
def Loaded (s : Session) : Prop :=
  let t := s.diagnosis.snapshots.length
  let published := (s.threads t).published
  let current := s.diagnosis.current
  match s.diagnosis.field with
  | .state => True
  | .completedPacket => current = { thread := t, state := published.state }
  | .waitThread => current =
      { thread := t, state := published.state, completedPacket := counters s.readers t % 2 ^ 32 }
  | .waitPacket => current =
      { thread := t, state := published.state, completedPacket := counters s.readers t % 2 ^ 32
        waitThread := published.waitThread }

/-- The snapshot of a thread, all values at once. -/
def snapshotOf (s : Session) (t : Nat) : Snapshot where
  thread := t
  state := (s.threads t).published.state
  completedPacket := counters s.readers t % 2 ^ 32
  waitThread := (s.threads t).published.waitThread
  waitPacket := (s.threads t).published.waitPacket

/-- A step of another thread does not touch what has been loaded. -/
theorem Loaded.congr (hloaded : Loaded s) (hdiagnosis : next.diagnosis = s.diagnosis)
    (hsame : s.diagnosis.field = .state ∨
      next.threads s.diagnosis.snapshots.length = s.threads s.diagnosis.snapshots.length ∧
      next.readers s.diagnosis.snapshots.length = s.readers s.diagnosis.snapshots.length) :
    Loaded next := by
  unfold Loaded counters at hloaded ⊢
  rw [hdiagnosis]
  rcases hsame with hfield | ⟨hthreads, hreaders⟩
  · simp only [hfield]
  · simp only [hthreads, hreaders]
    exact hloaded

theorem readerStep_frame (hstep : readerStep threadCount streams s t = some next) :
    next.diagnosis = s.diagnosis ∧
      ∀ i, i ≠ t → next.threads i = s.threads i ∧ next.readers i = s.readers i := by
  rcases readerStep_cases hstep with ⟨wait, thread, -, -, rfl⟩ | ⟨thread, readers, -, hmove, rfl⟩
  · exact ⟨rfl, fun i hi => ⟨Function.update_of_ne hi _ _, rfl⟩⟩
  · obtain ⟨reader, -, rfl⟩ := replayStep_cases hmove
    exact ⟨rfl, fun i hi => ⟨Function.update_of_ne hi _ _, Function.update_of_ne hi _ _⟩⟩

/-- **One event**, if it does not disturb the loads. -/
theorem step_loaded (hloaded : Loaded s) {event : Event} (hundisturbed : Undisturbed s event)
    (hstep : step threadCount streams s event = some next) : Loaded next := by
  cases event with
  | reader t =>
      obtain ⟨hdiagnosis, hothers⟩ := readerStep_frame hstep
      exact hloaded.congr hdiagnosis (hundisturbed.imp_right fun hne => hothers _ hne.symm)
  | announce t published =>
      obtain ⟨-, -, rfl⟩ := announce_cases hstep
      exact hloaded.congr rfl
        (hundisturbed.imp_right fun hne => ⟨Function.update_of_ne hne.symm _ _, rfl⟩)
  | load =>
      unfold Loaded at hloaded
      simp only [step, load] at hstep
      split_ifs at hstep
      cases hfield : s.diagnosis.field with
      | state =>
          simp only [hfield, Option.some.injEq] at hstep
          subst hstep
          exact rfl
      | completedPacket =>
          simp only [hfield, Option.some.injEq] at hstep hloaded
          subst hstep
          show ({ s.diagnosis.current with completedPacket := _ } : Snapshot) = _
          rw [hloaded]
      | waitThread =>
          simp only [hfield, Option.some.injEq] at hstep hloaded
          subst hstep
          show ({ s.diagnosis.current with waitThread := _ } : Snapshot) = _
          rw [hloaded]
      | waitPacket =>
          simp only [hfield, Option.some.injEq] at hstep
          subst hstep
          trivial

/-- The last load of a thread makes its snapshot complete. -/
theorem load_snapshots (hloaded : Loaded s) (hstep : load threadCount s = some next) :
    next.diagnosis.snapshots = s.diagnosis.snapshots ∨
      next.diagnosis.snapshots =
        s.diagnosis.snapshots ++ [snapshotOf s s.diagnosis.snapshots.length] := by
  rcases (load_cases hstep).2.2.2 with hsame | ⟨hfield, -, hsnapshots⟩
  · exact .inl hsame
  · simp only [Loaded, hfield] at hloaded
    rw [hloaded] at hsnapshots
    exact .inr hsnapshots

/-! ## Snapshots of a run -/

theorem getElem?_of_front {short long : List Snapshot} (hfront : short <+: long) {i : Nat}
    {snapshot : Snapshot} (hsnapshot : short[i]? = some snapshot) : long[i]? = some snapshot := by
  obtain ⟨more, rfl⟩ := hfront
  rw [List.getElem?_append_left (List.getElem?_eq_some_iff.mp hsnapshot).1, hsnapshot]

theorem step_snapshots {event : Event} (hstep : step threadCount streams s event = some next) :
    s.diagnosis.snapshots <+: next.diagnosis.snapshots := by
  cases event with
  | reader t => rw [(readerStep_frame hstep).1]
  | announce t published =>
      obtain ⟨-, -, rfl⟩ := announce_cases hstep
      exact List.prefix_rfl
  | load =>
      rcases (load_cases hstep).2.2.2 with hsame | ⟨-, -, hmore⟩
      · rw [hsame]
      · rw [hmore]
        exact List.prefix_append _ _

theorem exec_snapshots {events : List Event}
    (hexec : exec (step threadCount streams) s events = some final) :
    s.diagnosis.snapshots <+: final.diagnosis.snapshots := by
  induction events generalizing s with
  | nil =>
      cases hexec
      exact List.prefix_rfl
  | cons event events ih =>
      obtain ⟨next, hstep, hrest⟩ := exec_cons_eq_some_iff.mp hexec
      exact (step_snapshots hstep).trans (ih hrest)

theorem step_counters_le (hinv : Inv streams s) {event : Event}
    (hstep : step threadCount streams s event = some next) (i : Nat) :
    counters s.readers i ≤ counters next.readers i := by
  cases event with
  | reader t =>
      rcases readerStep_cases hstep with ⟨_, _, -, -, rfl⟩ | ⟨_, readers, -, hmove, rfl⟩
      · exact le_rfl
      · exact counters_le (hinv.readers t) hmove i
  | announce t published =>
      obtain ⟨-, -, rfl⟩ := announce_cases hstep
      exact le_rfl
  | load => rw [(load_cases hstep).1]

/-- Packet numbers fit into 32 bits. -/
def Fits (streams : Nat → List Packet) : Prop := ∀ t, (streams t).length < noPacket

theorem completed_le {stream : List Packet} {reader : Reader}
    (hplace : Place stream completed t reader) : reader.completed ≤ stream.length := by
  unfold Place at hplace
  cases hpc : reader.pc with
  | handles left =>
      simp only [hpc] at hplace
      obtain ⟨-, done, hpacket, -⟩ := hplace
      exact (List.getElem?_eq_some_iff.mp hpacket).1.le
  | barrierWait indices next =>
      simp only [hpc] at hplace
      obtain ⟨-, k, hcompleted, hpacket, -⟩ := hplace
      rw [hcompleted]
      exact (List.getElem?_eq_some_iff.mp hpacket).1
  | _ =>
      simp only [hpc] at hplace
      omega

theorem counters_mod (hinv : Inv streams s) (hfits : Fits streams) (t : Nat) :
    counters s.readers t % 2 ^ 32 = counters s.readers t := by
  have hle : counters s.readers t ≤ (streams t).length := completed_le (hinv.readers t).place
  have hlt : (streams t).length < noPacket := hfits t
  refine Nat.mod_eq_of_lt ?_
  unfold noPacket at hlt
  omega

/-- What is loaded later has counted more. -/
theorem recorded_later (hfits : Fits streams) {events : List Event} (hinv : Inv streams s)
    (hloaded : Loaded s) (hundisturbed : Along (step threadCount streams) Undisturbed s events)
    (hexec : exec (step threadCount streams) s events = some final) {u : Nat} {target : Snapshot}
    (hlate : s.diagnosis.snapshots.length ≤ u)
    (htarget : final.diagnosis.snapshots[u]? = some target) :
    counters s.readers u ≤ target.completedPacket := by
  induction events generalizing s with
  | nil =>
      cases hexec
      rw [List.getElem?_eq_none hlate] at htarget
      cases htarget
  | cons event events ih =>
      obtain ⟨next, hstep, hrest⟩ := exec_cons_eq_some_iff.mp hexec
      have hgrows := step_counters_le hinv hstep u
      have hinvNext := step_inv hinv hstep
      have hloadedNext := step_loaded hloaded hundisturbed.1 hstep
      by_cases hnext : next.diagnosis.snapshots.length ≤ u
      · exact hgrows.trans (ih hinvNext hloadedNext (hundisturbed.2 next hstep) hrest hnext)
      · -- the snapshot of `u` is the one that this event makes complete
        have hfirst : next.diagnosis.snapshots =
            s.diagnosis.snapshots ++ [snapshotOf s s.diagnosis.snapshots.length] := by
          cases event with
          | reader t =>
              rw [(readerStep_frame hstep).1] at hnext
              exact absurd hlate hnext
          | announce t published =>
              obtain ⟨-, -, rfl⟩ := announce_cases hstep
              exact absurd hlate hnext
          | load =>
              refine (load_snapshots hloaded hstep).resolve_left fun hsame => ?_
              rw [hsame] at hnext
              exact hnext hlate
        have hu : u = s.diagnosis.snapshots.length := by
          rw [hfirst, List.length_append, List.length_singleton] at hnext
          omega
        obtain ⟨more, hmore⟩ := exec_snapshots hrest
        rw [← hmore, hfirst, hu, List.append_assoc, List.getElem?_append_right le_rfl,
          Nat.sub_self] at htarget
        cases htarget
        rw [hu]
        show _ ≤ counters s.readers _ % 2 ^ 32
        rw [counters_mod hinv hfits]

/-! ## Threads that are reported -/

/-- A reader stands where its snapshot has it. -/
def Unbroken (s : Session) (t : Nat) (snapshot : Snapshot) : Prop :=
  waitOf s.readers t = some ⟨snapshot.state, snapshot.waitThread, snapshot.waitPacket⟩ ∧
    snapshot.completedPacket = counters s.readers t

/-- Every one of the threads waits for a packet that another one of them had not completed, as far
as the snapshots say. -/
def Reported (snapshots : List Snapshot) (circle : Nat → Prop) : Prop :=
  ∀ t, circle t → ∃ snapshot u target, snapshots[t]? = some snapshot ∧
    isThreadWait snapshot.state = true ∧ circle u ∧ snapshots[u]? = some target ∧
    snapshot.waitThread = u ∧
    ¬ Wait.Over ⟨snapshot.state, snapshot.waitThread, snapshot.waitPacket⟩
      fun _ => target.completedPacket

theorem Unbroken.congr {snapshot : Snapshot} (hunbroken : Unbroken s t snapshot)
    (hsame : next.readers t = s.readers t) : Unbroken next t snapshot := by
  unfold Unbroken counters at hunbroken ⊢
  rw [waitOf_congr hsame, hsame]
  exact hunbroken

theorem unbroken_snapshotOf (hinv : Inv streams s) (hfits : Fits streams)
    (hstate : isThreadWait (snapshotOf s t).state = true) : Unbroken s t (snapshotOf s t) :=
  ⟨(hinv.threads t).waitOf_eq hstate, counters_mod hinv hfits t⟩

/-- **One event** leaves the readers that are reported where they stand: the first one to go on
would have counted on a packet that its snapshots have as not completed. -/
theorem unbroken_step (hinv : Inv streams s) (hloaded : Loaded s) (hfits : Fits streams)
    {event : Event} (hstep : step threadCount streams s event = some next)
    {snapshots : List Snapshot} {circle : Nat → Prop} (hreported : Reported snapshots circle)
    (hfront : next.diagnosis.snapshots <+: snapshots)
    (hlate : ∀ u target, s.diagnosis.snapshots.length ≤ u → snapshots[u]? = some target →
      counters s.readers u ≤ target.completedPacket)
    (hunbroken : ∀ t snapshot, circle t → s.diagnosis.snapshots[t]? = some snapshot →
      Unbroken s t snapshot) :
    ∀ t snapshot, circle t → next.diagnosis.snapshots[t]? = some snapshot →
      Unbroken next t snapshot := by
  intro t snapshot ht hsnapshot
  have hfinal : snapshots[t]? = some snapshot := getElem?_of_front hfront hsnapshot
  cases event with
  | reader t₀ =>
      obtain ⟨hdiagnosis, hothers⟩ := readerStep_frame hstep
      rw [hdiagnosis] at hsnapshot hfront
      have hstands := hunbroken t snapshot ht hsnapshot
      by_cases hne : t = t₀
      · subst hne
        rcases readerStep_cases hstep with ⟨_, _, -, -, rfl⟩ | ⟨_, readers, -, hmove, rfl⟩
        · exact hstands.congr rfl
        -- it goes on, so its wait is over; yet the snapshots have it as open
        · exfalso
          obtain ⟨reader, hreader, -⟩ := replayStep_cases hmove
          have hover := (move_isSome_iff hstands.1).mp (by rw [hreader]; rfl)
          obtain ⟨_, u, target, hthere, -, hu, htarget, hthread, hblocked⟩ := hreported t ht
          cases hfinal.symm.trans hthere
          refine hblocked (hover.mono ?_)
          show counters s.readers snapshot.waitThread.toNat ≤ target.completedPacket
          rw [hthread, Int.toNat_natCast]
          -- the thread waited for is loaded already and stands still, or its count is loaded
          -- later
          rcases Nat.lt_or_ge u s.diagnosis.snapshots.length with hearly | hafter
          · have hrecorded : s.diagnosis.snapshots[u]? = some target := by
              rw [← htarget, List.getElem?_eq_getElem hearly]
              exact (getElem?_of_front hfront (List.getElem?_eq_getElem hearly)).symm
            exact (hunbroken u target hu hrecorded).2.ge
          · exact hlate u target hafter htarget
      · exact hstands.congr (hothers t hne).2
  | announce t₀ published =>
      obtain ⟨-, -, rfl⟩ := announce_cases hstep
      exact (hunbroken t snapshot ht hsnapshot).congr rfl
  | load =>
      have hreaders : next.readers t = s.readers t := by rw [(load_cases hstep).1]
      rcases load_snapshots hloaded hstep with hsame | hmore
      · rw [hsame] at hsnapshot
        exact (hunbroken t snapshot ht hsnapshot).congr hreaders
      · rw [hmore] at hsnapshot
        -- loaded before, loaded with this event, or not loaded yet
        rcases Nat.lt_trichotomy t s.diagnosis.snapshots.length with hlt | rfl | hgt
        · rw [List.getElem?_append_left hlt] at hsnapshot
          exact (hunbroken t snapshot ht hsnapshot).congr hreaders
        · rw [List.getElem?_append_right le_rfl, Nat.sub_self] at hsnapshot
          cases hsnapshot
          obtain ⟨_, -, -, hthere, hstate, -⟩ := hreported _ ht
          cases hfinal.symm.trans hthere
          exact (unbroken_snapshotOf hinv hfits hstate).congr hreaders
        · rw [List.getElem?_eq_none (by simp; omega)] at hsnapshot
          cases hsnapshot

/-- **A run** leaves the readers that are reported at its end where they stand. -/
theorem unbroken_exec (hfits : Fits streams) {events : List Event} (hinv : Inv streams s)
    (hloaded : Loaded s) (hundisturbed : Along (step threadCount streams) Undisturbed s events)
    (hexec : exec (step threadCount streams) s events = some final) {circle : Nat → Prop}
    (hreported : Reported final.diagnosis.snapshots circle)
    (hunbroken : ∀ t snapshot, circle t → s.diagnosis.snapshots[t]? = some snapshot →
      Unbroken s t snapshot) :
    ∀ t snapshot, circle t → final.diagnosis.snapshots[t]? = some snapshot →
      Unbroken final t snapshot := by
  induction events generalizing s with
  | nil =>
      cases hexec
      exact hunbroken
  | cons event events ih =>
      obtain ⟨next, hstep, hrest⟩ := exec_cons_eq_some_iff.mp hexec
      refine ih (step_inv hinv hstep) (step_loaded hloaded hundisturbed.1 hstep)
        (hundisturbed.2 next hstep) hrest ?_
      refine unbroken_step hinv hloaded hfits hstep hreported (exec_snapshots hrest) ?_ hunbroken
      intro u target hlate htarget
      exact recorded_later hfits hinv hloaded hundisturbed hexec hlate htarget

/-! ## A circle -/

/-- Readers that wait for each other. -/
def Circle (circle : Nat → Prop) (readers : Replay.State) : Prop :=
  ∀ t, circle t → ∃ wait u, waitOf readers t = some wait ∧ circle u ∧ wait.thread = (u : Int) ∧
    ¬ wait.Over (counters readers)

variable {circle : Nat → Prop}

theorem Circle.congr {other : Replay.State} (hcircle : Circle circle readers)
    (hsame : ∀ t, circle t → other t = readers t) : Circle circle other := by
  intro t ht
  obtain ⟨wait, u, hwait, hu, hthread, hblocked⟩ := hcircle t ht
  refine ⟨wait, u, (waitOf_congr (hsame t ht)).trans hwait, hu, hthread, fun hover => ?_⟩
  refine hblocked (hover.mono ?_)
  show (other wait.thread.toNat).completed ≤ (readers wait.thread.toNat).completed
  rw [hthread, Int.toNat_natCast, hsame u hu]

theorem Circle.blocked (hcircle : Circle circle readers) (streams : Nat → List Packet)
    (ht : circle t) : move streams readers t = none := by
  obtain ⟨wait, u, hwait, -, -, hblocked⟩ := hcircle t ht
  rw [← Option.not_isSome_iff_eq_none]
  exact fun hmoves => hblocked ((move_isSome_iff hwait).mp hmoves)

/-- **Readers that wait for each other never go on.** -/
theorem Circle.stays {events : List Event} (hcircle : Circle circle s.readers)
    (hexec : exec (step threadCount streams) s events = some final) :
    ∀ t, circle t → final.readers t = s.readers t := by
  let Stays (state : Session) : Prop := ∀ t, circle t → state.readers t = s.readers t
  have hstep : ∀ state event next, Stays state →
      step threadCount streams state event = some next → Stays next := by
    intro state event next hsame hstep t ht
    rw [← hsame t ht]
    cases event with
    | reader t₀ =>
        by_cases hne : t = t₀
        · subst hne
          rcases readerStep_cases hstep with ⟨_, _, -, -, rfl⟩ | ⟨_, readers, -, hmove, -⟩
          · rfl
          · obtain ⟨reader, hreader, -⟩ := replayStep_cases hmove
            rw [(hcircle.congr hsame).blocked streams ht] at hreader
            cases hreader
        · exact ((readerStep_frame hstep).2 t hne).2
    | announce t₀ published =>
        obtain ⟨-, -, rfl⟩ := announce_cases hstep
        rfl
    | load => rw [(load_cases hstep).1]
  have hrun : Stays final := exec_invariant_of_step hstep (fun _ _ => rfl) hexec
  exact hrun

theorem reported_findThreadCycle (snapshots : List Snapshot) :
    Reported snapshots (· ∈ findThreadCycle snapshots) := by
  intro t ht
  have hcycle := findThreadCycle_isCycle (List.ne_nil_of_mem ht)
  obtain ⟨u, hu, hleads⟩ := hcycle.exists_mem ht
  obtain ⟨waiting, target, hwaiting, htarget, hthread, -, hwaits⟩ := leads_successor_iff.mp hleads
  refine ⟨waiting, u, target, hwaiting, ?_, hu, htarget, hthread, ?_⟩
  · rcases hwaits with ⟨hstate, -⟩ | ⟨hstate, -⟩ <;> rw [hstate] <;> rfl
  · unfold Wait.Over
    rcases hwaits with ⟨hstate, hlt⟩ | ⟨hstate, hle⟩
    · simpa [hstate] using hlt
    · simpa [hstate] using hle

/-- **Threads that are reported wait for each other.** -/
theorem circle_of_reported (hfits : Fits streams) {events : List Event}
    (hexec : exec (step threadCount streams) {} events = some s)
    (hundisturbed : Along (step threadCount streams) Undisturbed {} events) :
    Circle (· ∈ findThreadCycle s.diagnosis.snapshots) s.readers := by
  have hreported := reported_findThreadCycle s.diagnosis.snapshots
  have hunbroken := unbroken_exec hfits (inv_init streams) trivial hundisturbed hexec hreported
    (by simp)
  intro t ht
  obtain ⟨snapshot, u, target, hsnapshot, -, hu, htarget, hthread, hblocked⟩ := hreported t ht
  refine ⟨_, u, (hunbroken t snapshot ht hsnapshot).1, hu, hthread, fun hover => ?_⟩
  refine hblocked (hover.mono ?_)
  show counters s.readers snapshot.waitThread.toNat ≤ target.completedPacket
  rw [hthread, Int.toNat_natCast, (hunbroken u target hu htarget).2]

/-- **Threads that are reported never move.**  The values of a thread are loaded while it does not
change them, but the threads go on between the loads of one thread and the next. -/
theorem reported_threads_never_move {events more : List Event} (hfits : Fits streams)
    (hexec : exec (step threadCount streams) {} events = some s)
    (hundisturbed : Along (step threadCount streams) Undisturbed {} events)
    (hreported : t ∈ findThreadCycle s.diagnosis.snapshots)
    (hmore : exec (step threadCount streams) s more = some final) :
    final.readers t = s.readers t ∧ (final.readers t).pc ≠ .finished ∧
      move streams final.readers t = none := by
  have hcircle := circle_of_reported hfits hexec hundisturbed
  have hsame := hcircle.stays hmore
  refine ⟨hsame t hreported, fun hfinished => ?_, (hcircle.congr hsame).blocked streams hreported⟩
  obtain ⟨wait, -, hwait, -⟩ := (hcircle.congr hsame) t hreported
  rw [waitOf, hfinished] at hwait
  cases hwait

/-- Two threads, each of which waits for the first packet of the other. -/
def crossedStreams : Nat → List Packet
  | 0 => [.call [⟨7, 1, 0⟩]]
  | 1 => [.call [⟨7, 0, 0⟩]]
  | _ => []

theorem crossedStreams_fits : Fits crossedStreams := by
  intro t
  rcases t with _ | _ | t
  · decide
  · decide
  · show 0 < noPacket
    decide

/-- Thread 1 has not begun when the values of thread 0 are loaded. -/
theorem reported_threads_never_move_crossed : ∃ s,
    exec (step 2 crossedStreams) {} (List.replicate 6 (Event.reader 0) ++
      List.replicate 4 Event.load ++ List.replicate 6 (Event.reader 1) ++
      List.replicate 4 Event.load) = some s ∧
    findThreadCycle s.diagnosis.snapshots = [0, 1] ∧
    (s.readers 0).pc ≠ .finished ∧ move crossedStreams s.readers 0 = none := by
  have hreached : (exec (step 2 crossedStreams) {} (List.replicate 6 (Event.reader 0) ++
      List.replicate 4 Event.load ++ List.replicate 6 (Event.reader 1) ++
      List.replicate 4 Event.load)).map (fun s => findThreadCycle s.diagnosis.snapshots) =
        some [0, 1] := by decide +kernel
  obtain ⟨s, hexec, hcycle⟩ := Option.map_eq_some_iff.mp hreached
  have hsame : exec (step 2 crossedStreams) s [] = some s := rfl
  have hstays := reported_threads_never_move (t := 0) crossedStreams_fits hexec
    (by decide +kernel) (by rw [hcycle]; decide) hsame
  exact ⟨s, hexec, hcycle, hstays.2⟩

/-- Each thread waits for the other once, one after the other. -/
def alternatingStreams : Nat → List Packet
  | 0 => [.call [⟨7, 1, 0⟩], .call [], .call [⟨7, 1, 1⟩]]
  | 1 => [.call [], .call [⟨7, 0, 1⟩]]
  | _ => []

/-- Thread 0 goes from its first wait to its second one between the loads of its own values: then
both threads are reported, and thread 1 goes on. -/
theorem torn_snapshot_is_reported : ∃ s,
    exec (step 2 alternatingStreams) {} (List.replicate 6 (Event.reader 0) ++
      List.replicate 9 (Event.reader 1) ++ List.replicate 2 Event.load ++
      List.replicate 12 (Event.reader 0) ++ List.replicate 6 Event.load) = some s ∧
    findThreadCycle s.diagnosis.snapshots = [0, 1] ∧
    (move alternatingStreams s.readers 1).isSome = true := by
  have hreached : (exec (step 2 alternatingStreams) {} (List.replicate 6 (Event.reader 0) ++
      List.replicate 9 (Event.reader 1) ++ List.replicate 2 Event.load ++
      List.replicate 12 (Event.reader 0) ++ List.replicate 6 Event.load)).map
        (fun s => (findThreadCycle s.diagnosis.snapshots,
          (move alternatingStreams s.readers 1).isSome)) = some ([0, 1], true) := by decide +kernel
  obtain ⟨s, hexec, hstate⟩ := Option.map_eq_some_iff.mp hreached
  exact ⟨s, hexec, Prod.mk.inj hstate⟩

/-! ## A replay that hangs -/

/-- Packets wait only for packets that there are. -/
def AwaitsExist (threadCount : Nat) (streams : Nat → List Packet) : Prop :=
  ∀ (t k : Nat) (packet : Packet) (i j : Nat), (streams t)[k]? = some packet →
    Awaits t packet i j → i < threadCount ∧ j < (streams i).length

/-- The four loads of one thread. -/
theorem exec_loads_thread {snapshots : List Snapshot} (hthread : snapshots.length < threadCount) :
    exec (step threadCount streams) { s with diagnosis := { snapshots := snapshots } }
      (List.replicate 4 .load) =
      some { s with diagnosis :=
        { snapshots := snapshots ++ [snapshotOf s snapshots.length] } } := by
  simp [List.replicate_succ, exec, step, load, hthread, snapshotOf]

/-- The loads of one thread after the other, of a replay that stands still. -/
theorem exec_loads (n : Nat) {snapshots : List Snapshot}
    (hthreads : snapshots.length + n ≤ threadCount) :
    exec (step threadCount streams) { s with diagnosis := { snapshots := snapshots } }
      (List.replicate (4 * n) .load) =
      some { s with diagnosis := { snapshots :=
        snapshots ++ (List.range' snapshots.length n).map (snapshotOf s) } } := by
  induction n generalizing snapshots with
  | zero => simp
  | succ n ih =>
      rw [Nat.mul_succ, Nat.add_comm, List.replicate_add, exec_append_eq_some_iff]
      refine ⟨_, exec_loads_thread (by omega), ?_⟩
      rw [ih (by simp; omega), List.length_append, List.length_singleton, List.range'_succ]
      simp

/-- A thread that neither goes on nor is at its end has published for what it waits. -/
theorem published_of_stuck (hinv : Inv streams s) (ht : t < threadCount)
    (hstuck : step threadCount streams s (.reader t) = none)
    (hunfinished : (s.readers t).pc ≠ .finished) :
    ∃ wait, waitOf s.readers t = some wait ∧ ¬ wait.Over (counters s.readers) ∧
      (s.threads t).published = ⟨wait.state, wait.thread, wait.packet⟩ := by
  have hthread := hinv.threads t
  -- a thread that can move is not stuck
  have hgoes : ∀ thread, (move streams s.readers t).isSome = true →
      s.goOn threadCount streams t thread ≠ none := by
    intro thread hmoves
    simp [Session.goOn, Replay.step, ht, Option.isSome_iff_ne_none.mp hmoves]
  simp only [step, readerStep, ht, if_true] at hstuck
  unfold ThreadInv at hthread
  cases hwait : waitOf s.readers t with
  | none =>
      cases hstage : (s.threads t).stage with
      | free =>
          simp only [hwait, hstage] at hstuck
          exact absurd hstuck
            (hgoes _ (move_isSome_of_free (hinv.readers t) hwait hunfinished))
      | spinning publishWait => cases publishWait <;> simp [hstage, hwait] at hthread
      | _ => simp [hstage, hwait] at hthread
  | some wait =>
      cases hstage : (s.threads t).stage with
      | spinning publishWait =>
          simp only [hwait, hstage] at hstuck
          split_ifs at hstuck with hover hpublish
          · exact absurd hstuck (hgoes _ ((move_isSome_iff hwait).mpr hover))
          -- a thread spins without publishing only where its wait was over before
          · cases publishWait with
            | false =>
                simp only [hstage, hwait] at hthread
                obtain ⟨-, _, heq, hover'⟩ := hthread
                cases heq
                exact absurd hover' hover
            | true =>
                simp only [hstage, hwait, Option.some.injEq] at hthread
                exact ⟨wait, rfl, hover, by rw [hthread]⟩
      | leaving =>
          simp only [hwait, hstage] at hstuck
          simp only [hstage, hwait, Option.some.injEq] at hthread
          obtain ⟨_, heq, hover, -⟩ := hthread
          cases heq
          exact absurd hstuck (hgoes _ ((move_isSome_iff hwait).mpr hover))
      | _ =>
          simp only [hwait, hstage] at hstuck
          cases hstuck

/-- Of a replay that hangs, the snapshot has an edge from every thread that is not at its end to
another such thread. -/
theorem waitsFor_of_stuck (hinv : Inv streams s) (hfits : Fits streams)
    (hexist : AwaitsExist threadCount streams) (ht : t < threadCount)
    (hstuck : step threadCount streams s (.reader t) = none)
    (hunfinished : (s.readers t).pc ≠ .finished) :
    ∃ u < threadCount, (s.readers u).pc ≠ .finished ∧
      WaitsFor ((List.range threadCount).map (snapshotOf s)) t u := by
  obtain ⟨wait, hwait, hblocked, hpublished⟩ := published_of_stuck hinv ht hstuck hunfinished
  obtain ⟨hthread, packet, j, hpacket, hawaits, hcompleted, hnumber⟩ :=
    waitOf_awaits (hinv.readers t) hwait hblocked
  obtain ⟨hu, hj⟩ := hexist t _ packet _ j hpacket hawaits
  have hlength := hfits wait.thread.toNat
  refine ⟨wait.thread.toNat, hu, fun hfinished => ?_, ?_⟩
  · have hplace := (hinv.readers wait.thread.toNat).place
    simp only [Place, hfinished] at hplace
    omega
  · refine ⟨snapshotOf s t, snapshotOf s wait.thread.toNat, by simp [ht], by simp [hu], ?_, ?_, ?_⟩
    · show (s.threads t).published.waitThread = _
      rw [hpublished]
      exact (Int.toNat_of_nonneg hthread).symm
    · show (s.threads t).published.waitPacket ≠ noPacket
      rw [hpublished]
      show wait.packet ≠ noPacket
      omega
    · show (s.threads t).published.state = _ ∧
        counters s.readers _ % 2 ^ 32 < (s.threads t).published.waitPacket ∨
        (s.threads t).published.state = _ ∧
        counters s.readers _ % 2 ^ 32 ≤ (s.threads t).published.waitPacket
      rw [hpublished, counters_mod hinv hfits]
      unfold Wait.Over at hblocked
      rcases waitOf_cases hwait with ⟨_, _, -, -, rfl⟩ | ⟨_, _, _, -, -, -, rfl⟩
      · exact .inr ⟨rfl, by simpa using hblocked⟩
      · exact .inl ⟨rfl, by simpa using hblocked⟩

/-- **A replay that hangs is reported.**  Where no reader can go on and not all are at their ends,
the next diagnosis reports threads that wait for each other. -/
theorem hanging_replay_is_reported {events : List Event} (hfits : Fits streams)
    (hexist : AwaitsExist threadCount streams)
    (hexec : exec (step threadCount streams) {} events = some s)
    (hfresh : s.diagnosis = {})
    (hstuck : ∀ i < threadCount, step threadCount streams s (.reader i) = none)
    (ht : t < threadCount) (hunfinished : (s.readers t).pc ≠ .finished) :
    ∃ final, exec (step threadCount streams) s (List.replicate (4 * threadCount) .load) =
        some final ∧
      final.diagnosis.snapshots.length = threadCount ∧
      findThreadCycle final.diagnosis.snapshots ≠ [] := by
  have hinv := exec_inv hexec
  have hloads : exec (step threadCount streams) s (List.replicate (4 * threadCount) .load) =
      some { s with diagnosis := { snapshots := (List.range threadCount).map (snapshotOf s) } } := by
    have hall : exec (step threadCount streams) { s with diagnosis := { snapshots := [] } } _ =
      some _ := exec_loads threadCount (Nat.zero_add threadCount).le
    rw [← hfresh] at hall
    rw [hall, List.range_eq_range']
    rfl
  refine ⟨_, hloads, by simp, ?_⟩
  rw [findThreadCycle_ne_nil_iff, ← leads_eq_waitsFor]
  let unfinished : List Nat :=
    (List.range threadCount).filter fun i => (s.readers i).pc ≠ .finished
  have hmem : ∀ i, i ∈ unfinished ↔ i < threadCount ∧ (s.readers i).pc ≠ .finished := by
    simp [unfinished]
  let snapshots : List Snapshot := (List.range threadCount).map (snapshotOf s)
  -- every thread that hangs waits for another one that does, so some of them close a cycle
  have hnodes : ∀ a b, Leads (successor (edges snapshots)) a b → a ∈ List.range threadCount := by
    intro a b hleads
    have hlt := (leads_successor_iff.mp hleads).lt.1
    simpa [snapshots] using hlt
  have hinside : ∀ a ∈ unfinished, ∃ b ∈ unfinished, Leads (successor (edges snapshots)) a b := by
    intro a ha
    obtain ⟨hlt, hopen⟩ := (hmem a).mp ha
    obtain ⟨b, hb, hwaiting, hwaits⟩ :=
      waitsFor_of_stuck hinv hfits hexist hlt (hstuck a hlt) hopen
    exact ⟨b, (hmem b).mpr ⟨hb, hwaiting⟩, leads_successor_iff.mpr hwaits⟩
  exact exists_onCycle hnodes hinside ((hmem t).mpr ⟨ht, hunfinished⟩)

theorem hanging_replay_is_reported_crossed : ∃ s final,
    exec (step 2 crossedStreams) {} (List.replicate 6 (Event.reader 0) ++
      List.replicate 6 (Event.reader 1)) = some s ∧
    exec (step 2 crossedStreams) s (List.replicate (4 * 2) .load) = some final ∧
    findThreadCycle final.diagnosis.snapshots ≠ [] := by
  obtain ⟨s, hexec, hfresh, hfirst, hsecond, hpc⟩ : ∃ s,
      exec (step 2 crossedStreams) {} (List.replicate 6 (Event.reader 0) ++
        List.replicate 6 (Event.reader 1)) = some s ∧
      s.diagnosis = {} ∧ step 2 crossedStreams s (.reader 0) = none ∧
      step 2 crossedStreams s (.reader 1) = none ∧ (s.readers 0).pc = .handles [⟨7, 1, 0⟩] :=
    ⟨_, rfl, rfl, rfl, rfl, rfl⟩
  have hexist : AwaitsExist 2 crossedStreams := by
    intro t k packet i j hpacket hawaits
    rcases t with _ | _ | t <;> rcases k with _ | k <;> cases hpacket <;>
      simp [Awaits] at hawaits <;> simp [← hawaits.2.1, ← hawaits.2.2, crossedStreams]
  obtain ⟨final, hloads, -, hfound⟩ := hanging_replay_is_reported (t := 0) crossedStreams_fits
    hexist hexec hfresh
    (fun i hi => by
      rcases i with _ | _ | i
      · exact hfirst
      · exact hsecond
      · omega)
    (by decide) (by rw [hpc]; decide)
  exact ⟨s, final, hexec, hloads, hfound⟩

/-! ## Captured traces -/

/-- Readers of packets in an order do not wait for each other: each of them would wait for one
whose packet stands further in front. -/
theorem Circle.not_of_wellOrdered {order : List (Nat × Nat)} (hcircle : Circle circle readers)
    (hinv : ∀ i, ReaderInv (streams i) (counters readers) i (readers i))
    (hordered : WellOrdered threadCount streams order) (t : Nat) : ¬ circle t := by
  -- each of them waits for a packet that comes later in its thread than where that one stands
  have hawaited : ∀ t, circle t → ∃ packet u j,
      (streams t)[(readers t).passed]? = some packet ∧ circle u ∧ Awaits t packet u j ∧
        (readers u).passed ≤ j := by
    intro t ht
    obtain ⟨wait, u, hwait, hu, hthread, hblocked⟩ := hcircle t ht
    obtain ⟨-, packet, j, hpacket, hawaits, hcompleted, -⟩ :=
      waitOf_awaits (hinv t) hwait hblocked
    rw [hthread, Int.toNat_natCast] at hawaits hcompleted
    obtain ⟨other, -, hother, -⟩ := hcircle u hu
    exact ⟨packet, u, j, hpacket, hu, hawaits, (passed_le_of_waitOf hother).trans hcompleted⟩
  have hnone : ∀ m t : Nat, order[m]? = some (t, (readers t).passed) → ¬ circle t := by
    intro m
    induction m using Nat.strong_induction_on with
    | _ m ih =>
      intro t horder ht
      obtain ⟨packet, u, j, hpacket, hu, hawaits, hpassed⟩ := hawaited t ht
      obtain ⟨m₁, hm₁, hbefore⟩ := hordered.waits m t _ packet horder hpacket u j hawaits
      obtain ⟨m₂, hm₂, hcurrent⟩ := hordered.closed m₁ u j hbefore _ hpassed
      exact ih m₂ (hm₂.trans_lt hm₁) u hcurrent hu
  intro ht
  obtain ⟨packet, -, -, hpacket, -⟩ := hawaited t ht
  obtain ⟨m, horder⟩ :=
    List.getElem?_of_mem (hordered.mem t _ (List.getElem?_eq_some_iff.mp hpacket).1)
  exact hnone m t horder ht

/-- **No thread of a captured trace is reported**, in any diagnosis of any replay in which no
thread moves between the loads of its own values, if the sources of its handles had been ended. -/
theorem captured_trace_is_not_reported {actions : List Capture.Action} {captured : Capture.State}
    {events : List Event} (hcapture : exec Capture.step {} actions = some captured)
    (hsync : Along Capture.step Capture.SourceEnded {} actions)
    (hfits : Fits captured.streams)
    (hexec : exec (step captured.count captured.streams) {} events = some s)
    (hundisturbed : Along (step captured.count captured.streams) Undisturbed {} events) :
    findThreadCycle s.diagnosis.snapshots = [] := by
  have hcircle := circle_of_reported hfits hexec hundisturbed
  exact List.eq_nil_iff_forall_not_mem.mpr (hcircle.not_of_wellOrdered (exec_inv hexec).readers
    (Capture.streams_wellOrdered hcapture hsync))

/-- Thread 0 waits at its barrier while it is loaded. -/
theorem captured_trace_is_not_reported_twoThreads : ∃ captured s,
    exec Capture.step {} Capture.twoThreads = some captured ∧
    exec (step captured.count captured.streams) {}
      (List.replicate 10 (Event.reader 0) ++ List.replicate 8 Event.load) = some s ∧
    (s.diagnosis.snapshots.map Snapshot.state) = [.waitBarrier, .notStarted] ∧
    findThreadCycle s.diagnosis.snapshots = [] := by
  obtain ⟨captured, s, hcapture, hexec, hstates, hundisturbed, hcount, hfirst, hsecond⟩ :
      ∃ captured s,
      exec Capture.step {} Capture.twoThreads = some captured ∧
      exec (step captured.count captured.streams) {}
        (List.replicate 10 (Event.reader 0) ++ List.replicate 8 Event.load) = some s ∧
      (s.diagnosis.snapshots.map Snapshot.state) = [.waitBarrier, .notStarted] ∧
      Along (step captured.count captured.streams) Undisturbed {}
        (List.replicate 10 (Event.reader 0) ++ List.replicate 8 Event.load) ∧
      captured.count = 2 ∧ (captured.streams 0).length = 3 ∧ (captured.streams 1).length = 2 :=
    ⟨_, _, rfl, rfl, rfl, by decide, rfl, rfl, rfl⟩
  have hfits : Fits captured.streams := by
    intro t
    rcases t with _ | _ | t
    · rw [hfirst]
      decide
    · rw [hsecond]
      decide
    · rw [Capture.State.streams, (Capture.exec_writerInv hcapture).fresh _ (by omega)]
      decide
  exact ⟨captured, s, hcapture, hexec, hstates,
    captured_trace_is_not_reported hcapture (by decide) hfits hexec hundisturbed⟩

end

end PublishedWaits
end Lavatube
