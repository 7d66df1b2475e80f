import Lavatube.Lib.Transition
import Mathlib.Logic.Function.Basic

/-!
# Replay of all threads

Every thread of a trace is replayed by a thread of its own.  A handle that was last modified
by another thread holds its reader up until that thread has completed the packet in which it
did so; a thread barrier holds it up until all other threads have completed as many packets
as they had when the barrier was captured.  The threads see each other through
`thread_packet_numbers` only.

* `Reader`, `step` — one reader, and all of them.
* `ReaderInv` — what a reader has waited for is complete.
* `Reader.Started`, `HasRead` — what a reader has got behind it.
* `WellOrdered` — an order of all packets in which every wait is for an earlier one.
* `exists_move` — with such an order the readers cannot all wait.
-/

namespace Lavatube
namespace Replay

open Transition

/-! ## The readers -/

/-- A handle as it is stored: the thread is an `int8_t`. -/
structure Handle where
  index : Nat
  thread : Int
  packet : Nat
deriving DecidableEq, Repr

/-- A handle that no thread waits for. -/
def Handle.Own (thread : Nat) (handle : Handle) : Prop :=
  handle.thread < 0 ∨ handle.thread = thread

instance (thread : Nat) (handle : Handle) : Decidable (handle.Own thread) :=
  inferInstanceAs (Decidable (_ ∨ _))

/-- The wait of `read_handle` is over. -/
def handlePasses (completed : Nat → Nat) (thread : Nat) (handle : Handle) : Prop :=
  handle.Own thread ∨ handle.packet < completed handle.thread.toNat

instance (completed : Nat → Nat) (thread : Nat) (handle : Handle) :
    Decidable (handlePasses completed thread handle) :=
  inferInstanceAs (Decidable (_ ∨ _))

/-- The wait of `read_barrier` for one of the threads is over. -/
def barrierPasses (completed : Nat → Nat) (thread i index : Nat) : Prop :=
  i = thread ∨ index ≤ completed i

instance (completed : Nat → Nat) (thread i index : Nat) :
    Decidable (barrierPasses completed thread i index) :=
  inferInstanceAs (Decidable (_ ∨ _))

/-- A packet, as far as the readers wait for each other in it. -/
inductive Packet where
  | call (handles : List Handle)
  | threadBarrier (indices : List Nat)
deriving DecidableEq, Repr

/-- Where a reader stands: between two packets, behind `step`, in the reads of handles, or
in the waits of a barrier, which it has completed already. -/
inductive Pc where
  | idle
  | opened
  | handles (left : List Handle)
  | barrierWait (indices : List Nat) (next : Nat)
  | finished
deriving DecidableEq, Repr

/-- A reader, with its packet counter in `thread_packet_numbers`. -/
structure Reader where
  pc : Pc := .idle
  packetOpen : Bool := false
  completed : Nat := 0
deriving DecidableEq, Repr

/-- All readers. -/
abbrev State := Nat → Reader

/-- `thread_packet_numbers`. -/
def counters (s : State) : Nat → Nat := fun i => (s i).completed

/-- The next access of a reader; `none` while it waits and at its end. -/
def move (streams : Nat → List Packet) (s : State) (t : Nat) : Option Reader :=
  let reader := s t
  match reader.pc with
  | .idle =>
      -- `step` completes the packet that is open
      let completed := if reader.packetOpen then reader.completed + 1 else reader.completed
      match (streams t)[completed]? with
      | none => some { completed := completed, packetOpen := false, pc := .finished }
      | some _ => some { completed := completed, packetOpen := true, pc := .opened }
  | .opened =>
      match (streams t)[reader.completed]? with
      | none => none
      | some (.call handles) => some { reader with pc := .handles handles }
      | some (.threadBarrier indices) =>
          some { completed := reader.completed + 1, packetOpen := false
                 pc := .barrierWait indices 0 }
  | .handles [] => some { reader with pc := .idle }
  | .handles (handle :: left) =>
      if handlePasses (counters s) t handle then some { reader with pc := .handles left }
      else none
  | .barrierWait indices next =>
      match indices[next]? with
      | none => some { reader with pc := .idle }
      | some index =>
          if barrierPasses (counters s) t next index then
            some { reader with pc := .barrierWait indices (next + 1) }
          else
            none
  | .finished => none

/-- One step of one reader. -/
def step (threadCount : Nat) (streams : Nat → List Packet) (s : State) (t : Nat) :
    Option State :=
  if t < threadCount then (move streams s t).map (Function.update s t) else none

/-! ## What has been waited for -/

/-- All waits of a packet are over. -/
def Satisfied (completed : Nat → Nat) (t : Nat) : Packet → Prop
  | .call handles => ∀ handle ∈ handles, handlePasses completed t handle
  | .threadBarrier indices =>
      ∀ i index, indices[i]? = some index → barrierPasses completed t i index

/-- The number of packets whose waits are behind a reader. -/
def Reader.passed (reader : Reader) : Nat :=
  match reader.pc with
  | .idle => reader.completed + (if reader.packetOpen then 1 else 0)
  | .opened | .handles _ | .finished => reader.completed
  | .barrierWait _ _ => reader.completed - 1

/-- Where a reader stands in its stream. -/
def Place (stream : List Packet) (completed : Nat → Nat) (t : Nat) (reader : Reader) : Prop :=
  match reader.pc with
  | .idle => reader.completed + (if reader.packetOpen then 1 else 0) ≤ stream.length
  | .opened => reader.packetOpen = true ∧ reader.completed < stream.length
  | .handles left => reader.packetOpen = true ∧ ∃ done,
      stream[reader.completed]? = some (.call (done ++ left)) ∧
        ∀ handle ∈ done, handlePasses completed t handle
  | .barrierWait indices next => reader.packetOpen = false ∧ ∃ k, reader.completed = k + 1 ∧
      stream[k]? = some (.threadBarrier indices) ∧
        ∀ i index, i < next → indices[i]? = some index → barrierPasses completed t i index
  | .finished => reader.completed = stream.length

/-- What every reader keeps. -/
structure ReaderInv (stream : List Packet) (completed : Nat → Nat) (t : Nat) (reader : Reader) :
    Prop where
  passed : ∀ k packet, k < reader.passed → stream[k]? = some packet →
    Satisfied completed t packet
  place : Place stream completed t reader

section

variable {threadCount : Nat} {streams : Nat → List Packet} {s : State} {t : Nat}
  {completed later : Nat → Nat}

theorem handlePasses.mono {handle : Handle} (hpasses : handlePasses completed t handle)
    (hlater : ∀ i, completed i ≤ later i) : handlePasses later t handle :=
  hpasses.imp_right fun hlt => hlt.trans_le (hlater _)

theorem barrierPasses.mono {i index : Nat} (hpasses : barrierPasses completed t i index)
    (hlater : ∀ i, completed i ≤ later i) : barrierPasses later t i index :=
  hpasses.imp_right fun hle => hle.trans (hlater _)

theorem Satisfied.mono {packet : Packet} (hsatisfied : Satisfied completed t packet)
    (hlater : ∀ i, completed i ≤ later i) : Satisfied later t packet := by
  cases packet with
  | call handles => exact fun handle hmem => (hsatisfied handle hmem).mono hlater
  | threadBarrier indices =>
      exact fun i index hindex => (hsatisfied i index hindex).mono hlater

theorem Place.mono {stream : List Packet} {reader : Reader}
    (hplace : Place stream completed t reader) (hlater : ∀ i, completed i ≤ later i) :
    Place stream later t reader := by
  unfold Place at hplace ⊢
  cases hpc : reader.pc with
  | handles left =>
      simp only [hpc] at hplace ⊢
      obtain ⟨hopen, done, hpacket, hdone⟩ := hplace
      exact ⟨hopen, done, hpacket, fun handle hmem => (hdone handle hmem).mono hlater⟩
  | barrierWait indices next =>
      simp only [hpc] at hplace ⊢
      obtain ⟨hopen, k, hcompleted, hpacket, hdone⟩ := hplace
      exact ⟨hopen, k, hcompleted, hpacket,
        fun i index hi hindex => (hdone i index hi hindex).mono hlater⟩
  | _ => simpa only [hpc] using hplace

theorem ReaderInv.mono {stream : List Packet} {reader : Reader}
    (hinv : ReaderInv stream completed t reader) (hlater : ∀ i, completed i ≤ later i) :
    ReaderInv stream later t reader :=
  ⟨fun k packet hk hpacket => (hinv.passed k packet hk hpacket).mono hlater,
    hinv.place.mono hlater⟩

section Reader

variable {stream : List Packet} {reader : Reader}

/-- The last handle of a packet has been read, so the packet is satisfied. -/
theorem ReaderInv.handles_nil (hinv : ReaderInv stream completed t reader)
    (hpc : reader.pc = .handles []) :
    ReaderInv stream completed t { reader with pc := .idle } := by
  obtain ⟨hpassed, hplace⟩ := hinv
  simp only [Place, Reader.passed, hpc] at hplace hpassed
  obtain ⟨hopen, done, hpacket, hdone⟩ := hplace
  have hlt := (List.getElem?_eq_some_iff.mp hpacket).1
  refine ⟨fun k packet hk hk' => ?_, ?_⟩
  · simp only [Reader.passed, hopen, if_true] at hk
    rcases Nat.lt_or_ge k reader.completed with hless | hge
    · exact hpassed k packet hless hk'
    · obtain rfl : k = reader.completed := by omega
      cases hpacket.symm.trans hk'
      simpa [Satisfied] using hdone
  · simpa [Place, hopen] using hlt

/-- A handle that passes is checked off. -/
theorem ReaderInv.handles_cons (hinv : ReaderInv stream completed t reader) {handle : Handle}
    {left : List Handle} (hpc : reader.pc = .handles (handle :: left))
    (hpasses : handlePasses completed t handle) :
    ReaderInv stream completed t { reader with pc := .handles left } := by
  obtain ⟨hpassed, hplace⟩ := hinv
  simp only [Place, Reader.passed, hpc] at hplace hpassed
  obtain ⟨hopen, done, hpacket, hdone⟩ := hplace
  refine ⟨hpassed, hopen, done ++ [handle], by simpa using hpacket, ?_⟩
  intro other hmem
  cases List.mem_append.mp hmem with
  | inl hold => exact hdone other hold
  | inr hnew =>
      rw [List.mem_singleton.mp hnew]
      exact hpasses

/-- All waits of a barrier are over, so it is satisfied. -/
theorem ReaderInv.barrierWait_end (hinv : ReaderInv stream completed t reader)
    {indices : List Nat} {next : Nat} (hpc : reader.pc = .barrierWait indices next)
    (hend : indices[next]? = none) :
    ReaderInv stream completed t { reader with pc := .idle } := by
  obtain ⟨hpassed, hplace⟩ := hinv
  simp only [Place, Reader.passed, hpc] at hplace hpassed
  obtain ⟨hopen, k, hcompleted, hpacket, hdone⟩ := hplace
  have hlength := List.getElem?_eq_none_iff.mp hend
  have hlt := (List.getElem?_eq_some_iff.mp hpacket).1
  refine ⟨fun j packet hj hj' => ?_, ?_⟩
  · simp only [Reader.passed, hopen, hcompleted] at hj
    rcases Nat.lt_or_ge j k with hless | hge
    · exact hpassed j packet (by omega) hj'
    · obtain rfl : j = k := by
        simp at hj
        omega
      cases hpacket.symm.trans hj'
      intro i index hindex
      have hi := (List.getElem?_eq_some_iff.mp hindex).1
      exact hdone i index (by omega) hindex
  · simp only [Place, hopen, hcompleted]
    exact hlt

/-- A wait that passes is checked off. -/
theorem ReaderInv.barrierWait_next (hinv : ReaderInv stream completed t reader)
    {indices : List Nat} {next index : Nat} (hpc : reader.pc = .barrierWait indices next)
    (hindex : indices[next]? = some index) (hpasses : barrierPasses completed t next index) :
    ReaderInv stream completed t { reader with pc := .barrierWait indices (next + 1) } := by
  obtain ⟨hpassed, hplace⟩ := hinv
  simp only [Place, Reader.passed, hpc] at hplace hpassed
  obtain ⟨hopen, k, hcompleted, hpacket, hdone⟩ := hplace
  refine ⟨hpassed, hopen, k, hcompleted, hpacket, ?_⟩
  intro i other hi hother
  rcases Nat.lt_or_ge i next with hless | hge
  · exact hdone i other hless hother
  · obtain rfl : i = next := by omega
    cases hindex.symm.trans hother
    exact hpasses

end Reader

/-- **One step of a reader**, with what it sees of the others. -/
theorem move_inv (hinv : ReaderInv (streams t) (counters s) t (s t)) {reader : Reader}
    (hmove : move streams s t = some reader) :
    ReaderInv (streams t) (counters s) t reader ∧ (s t).completed ≤ reader.completed := by
  have hplace := hinv.place
  have hpassed := hinv.passed
  unfold Place at hplace
  unfold Reader.passed at hpassed
  unfold move at hmove
  cases hpc : (s t).pc with
  | idle =>
      simp only [hpc] at hplace hpassed hmove
      -- the packet that was open is complete
      have hsame : (if (s t).packetOpen = true then (s t).completed + 1 else (s t).completed) =
          (s t).completed + (if (s t).packetOpen then 1 else 0) := by
        split <;> rfl
      rw [hsame] at hmove
      split at hmove
      · case _ hend =>
          cases hmove
          have hlength := List.getElem?_eq_none_iff.mp hend
          exact ⟨⟨hpassed, le_antisymm hplace hlength⟩, Nat.le_add_right _ _⟩
      · case _ packet hpacket =>
          cases hmove
          exact ⟨⟨hpassed, rfl, (List.getElem?_eq_some_iff.mp hpacket).1⟩, Nat.le_add_right _ _⟩
  | opened =>
      simp only [hpc] at hplace hpassed hmove
      split at hmove
      · cases hmove
      · case _ handles hpacket =>
          cases hmove
          exact ⟨⟨hpassed, hplace.1, [], hpacket, by simp⟩, le_rfl⟩
      · case _ indices hpacket =>
          cases hmove
          -- a barrier is complete when it has been read, before the wait for it
          refine ⟨⟨hpassed, rfl, _, rfl, hpacket, ?_⟩, Nat.le_succ _⟩
          intro i index hi
          exact absurd hi (Nat.not_lt_zero i)
  | handles left =>
      cases left with
      | nil =>
          simp only [hpc] at hmove
          cases hmove
          exact ⟨hinv.handles_nil hpc, le_rfl⟩
      | cons handle left =>
          simp only [hpc] at hmove
          split at hmove
          · case _ hpasses =>
              cases hmove
              exact ⟨hinv.handles_cons hpc hpasses, le_rfl⟩
          · cases hmove
  | barrierWait indices next =>
      simp only [hpc] at hmove
      split at hmove
      · case _ hend =>
          cases hmove
          exact ⟨hinv.barrierWait_end hpc hend, le_rfl⟩
      · case _ index hindex =>
          split at hmove
          · case _ hpasses =>
              cases hmove
              exact ⟨hinv.barrierWait_next hpc hindex hpasses, le_rfl⟩
          · cases hmove
  | finished =>
      simp only [hpc] at hmove
      cases hmove

/-- **One step of one reader.** -/
theorem step_inv (hinv : ∀ i, ReaderInv (streams i) (counters s) i (s i)) {next : State}
    (hstep : step threadCount streams s t = some next) :
    ∀ i, ReaderInv (streams i) (counters next) i (next i) := by
  unfold step at hstep
  split at hstep
  · obtain ⟨reader, hmove, rfl⟩ := Option.map_eq_some_iff.mp hstep
    obtain ⟨hreader, hgrows⟩ := move_inv (hinv t) hmove
    have hlater : ∀ i, counters s i ≤ counters (Function.update s t reader) i := by
      intro i
      unfold counters
      by_cases hi : i = t
      · subst hi
        rwa [Function.update_self]
      · rw [Function.update_of_ne hi]
    intro i
    by_cases hi : i = t
    · subst hi
      rw [Function.update_self]
      exact hreader.mono hlater
    · rw [Function.update_of_ne hi]
      exact (hinv i).mono hlater
  · cases hstep

/-- **A run of the readers.** -/
theorem exec_inv {schedule : List Nat}
    (hexec : exec (step threadCount streams) (fun _ => {}) schedule = some s) :
    ∀ i, ReaderInv (streams i) (counters s) i (s i) := by
  refine exec_invariant_of_step
    (fun state t next (hinv : ∀ i, ReaderInv (streams i) (counters state) i (state i)) hstep =>
      step_inv hinv hstep) (fun i => ⟨fun k packet hk => ?_, Nat.zero_le _⟩) hexec
  exact absurd hk (Nat.not_lt_zero k)

/-! ## What a reader has got behind it -/

/-- The reader has begun to execute packet `k`. -/
def Reader.Started (reader : Reader) (k : Nat) : Prop :=
  k < reader.completed ∨ k = reader.completed ∧ reader.packetOpen = true

instance (reader : Reader) (k : Nat) : Decidable (reader.Started k) :=
  inferInstanceAs (Decidable (_ ∨ _))

/-- `read_handle` has returned for handle `i` of packet `k`. -/
def HasRead (stream : List Packet) (reader : Reader) (k i : Nat) : Prop :=
  ∃ handles, stream[k]? = some (.call handles) ∧ i < handles.length ∧
    (k < reader.passed ∨ k = reader.completed ∧
      ∃ left, reader.pc = .handles left ∧ i + left.length < handles.length)

/-- Before a packet is executed, the waits of all packets in front of it are over. -/
theorem Reader.Started.le_passed {stream : List Packet} {reader : Reader} {k : Nat}
    (hstarted : reader.Started k) (hplace : Place stream completed t reader) :
    k ≤ reader.passed := by
  unfold Reader.Started at hstarted
  unfold Place at hplace
  unfold Reader.passed
  cases hpc : reader.pc with
  | barrierWait indices next =>
      simp only [hpc] at hplace ⊢
      obtain ⟨hopen, l, hcompleted, -⟩ := hplace
      simp [hopen] at hstarted
      omega
  | _ =>
      simp only
      omega

/-- What a reader knows of a handle that it has read. -/
theorem ReaderInv.hasRead {stream : List Packet} {reader : Reader} {k i : Nat}
    (hinv : ReaderInv stream completed t reader) (hread : HasRead stream reader k i)
    {handles : List Handle} {handle : Handle} (hpacket : stream[k]? = some (.call handles))
    (hhandle : handles[i]? = some handle) : handlePasses completed t handle := by
  obtain ⟨_, hcall, -, hread⟩ := hread
  cases hpacket.symm.trans hcall
  rcases hread with hpassed | ⟨rfl, left, hpc, hlt⟩
  · exact hinv.passed k _ hpassed hpacket handle (List.mem_of_getElem? hhandle)
  · have hplace := hinv.place
    simp only [Place, hpc] at hplace
    obtain ⟨-, done, hcall, hdone⟩ := hplace
    cases hpacket.symm.trans hcall
    rw [List.length_append] at hlt
    rw [List.getElem?_append_left (by omega)] at hhandle
    exact hdone handle (List.mem_of_getElem? hhandle)

/-! ## The readers cannot all wait -/

/-- The packet of thread `t` waits for packet `j` of thread `i`. -/
def Awaits (t : Nat) (packet : Packet) (i j : Nat) : Prop :=
  match packet with
  | .call handles => ∃ handle ∈ handles, ¬ handle.Own t ∧ handle.thread.toNat = i ∧
      handle.packet = j
  | .threadBarrier indices => i ≠ t ∧ ∃ index, indices[i]? = some index ∧ j < index

/-- An order of all packets in which every packet stands behind the packets it waits for. -/
structure WellOrdered (threadCount : Nat) (streams : Nat → List Packet)
    (order : List (Nat × Nat)) : Prop where
  mem : ∀ t k, k < (streams t).length → (t, k) ∈ order
  inside : ∀ t k, (t, k) ∈ order → t < threadCount ∧ k < (streams t).length
  closed : ∀ (m t k : Nat), order[m]? = some (t, k) →
    ∀ j ≤ k, ∃ m' ≤ m, order[m']? = some (t, j)
  waits : ∀ (m t k : Nat) packet, order[m]? = some (t, k) → (streams t)[k]? = some packet →
    ∀ i j, Awaits t packet i j → ∃ m' < m, order[m']? = some (i, j)

/-- A reader between two packets goes on. -/
theorem move_idle (hpc : (s t).pc = .idle) : (move streams s t).isSome = true := by
  unfold move
  simp only [hpc]
  split <;> rfl

/-- What a reader waits for that does not go on. -/
theorem blocked_awaits (hinv : ReaderInv (streams t) (counters s) t (s t))
    (hblocked : move streams s t = none) (hunfinished : (s t).pc ≠ .finished) :
    (s t).passed < (streams t).length ∧ ∃ packet i j,
      (streams t)[(s t).passed]? = some packet ∧ Awaits t packet i j ∧ (s i).completed ≤ j := by
  have hplace := hinv.place
  unfold Place at hplace
  unfold Reader.passed
  cases hpc : (s t).pc with
  | idle =>
      have hmoves : (move streams s t).isSome = true := move_idle hpc
      rw [hblocked] at hmoves
      cases hmoves
  | opened =>
      simp only [hpc] at hplace
      have hpacket := List.getElem?_eq_getElem hplace.2
      simp only [move, hpc, hpacket] at hblocked
      split at hblocked <;> simp_all
  | handles left =>
      simp only [hpc] at hplace ⊢
      obtain ⟨-, done, hpacket, -⟩ := hplace
      have hlt := (List.getElem?_eq_some_iff.mp hpacket).1
      simp only [move, hpc] at hblocked
      cases left with
      | nil => cases hblocked
      | cons handle left =>
          simp only [ite_eq_right_iff, reduceCtorEq, imp_false] at hblocked
          obtain ⟨hother, hwaits⟩ := not_or.mp hblocked
          exact ⟨hlt, _, _, _, hpacket, ⟨handle, by simp, hother, rfl, rfl⟩, not_lt.mp hwaits⟩
  | barrierWait indices next =>
      simp only [hpc] at hplace ⊢
      obtain ⟨-, k, hcompleted, hpacket, -⟩ := hplace
      have hlt := (List.getElem?_eq_some_iff.mp hpacket).1
      rw [hcompleted, Nat.add_sub_cancel]
      simp only [move, hpc] at hblocked
      split at hblocked
      · cases hblocked
      · case _ index hindex =>
          simp only [ite_eq_right_iff, reduceCtorEq, imp_false] at hblocked
          obtain ⟨hother, hwaits⟩ := not_or.mp hblocked
          exact ⟨hlt, _, _, _, hpacket, ⟨hother, index, hindex, not_le.mp hwaits⟩, le_rfl⟩
  | finished => exact absurd hpc hunfinished

/-- Among the threads up to any place of the order that has not been reached, one goes on. -/
theorem exists_move_upto {order : List (Nat × Nat)}
    (hordered : WellOrdered threadCount streams order)
    (hinv : ∀ i, ReaderInv (streams i) (counters s) i (s i)) (m : Nat) {t j : Nat}
    (horder : order[m]? = some (t, j)) (hahead : (s t).passed ≤ j) :
    ∃ u < threadCount, (s u).pc ≠ .finished ∧ (move streams s u).isSome = true := by
  induction m using Nat.strong_induction_on generalizing t j with
  | _ m ih =>
    obtain ⟨hthread, hlt⟩ := hordered.inside t j (List.mem_of_getElem? horder)
    have hunfinished : (s t).pc ≠ .finished := by
      intro hpc
      have hplace := (hinv t).place
      simp only [Place, hpc] at hplace
      simp only [Reader.passed, hpc] at hahead
      omega
    cases hmove : move streams s t with
    | some reader => exact ⟨t, hthread, hunfinished, by rw [hmove]; rfl⟩
    | none =>
        obtain ⟨-, packet, i, j', hpacket, hawaits, hincomplete⟩ :=
          blocked_awaits (hinv t) hmove hunfinished
        obtain ⟨m₁, hm₁, hcurrent⟩ := hordered.closed m t j horder _ hahead
        obtain ⟨m₂, hm₂, hawaited⟩ := hordered.waits m₁ t _ packet hcurrent hpacket i j' hawaits
        by_cases hidle : (s i).pc = .idle
        · have hi := (hordered.inside i j' (List.mem_of_getElem? hawaited)).1
          exact ⟨i, hi, by simp [hidle], move_idle hidle⟩
        · refine ih m₂ (by omega) hawaited (le_trans ?_ hincomplete)
          unfold Reader.passed
          split <;> simp_all

/-- **The readers cannot all wait** for each other. -/
theorem exists_move {order : List (Nat × Nat)}
    (hordered : WellOrdered threadCount streams order) {schedule : List Nat}
    (hexec : exec (step threadCount streams) (fun _ => {}) schedule = some s)
    (ht : t < threadCount) (hunfinished : (s t).pc ≠ .finished) :
    ∃ u < threadCount, (s u).pc ≠ .finished ∧ (move streams s u).isSome = true := by
  have hinv := exec_inv hexec
  cases hmove : move streams s t with
  | some reader => exact ⟨t, ht, hunfinished, by rw [hmove]; rfl⟩
  | none =>
      have hlt := (blocked_awaits (hinv t) hmove hunfinished).1
      obtain ⟨m, horder⟩ := List.getElem?_of_mem (hordered.mem t _ hlt)
      exact exists_move_upto hordered hinv m horder le_rfl

end

end Replay
end Lavatube
