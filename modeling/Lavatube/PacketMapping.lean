import Lavatube.Lib.PartitionPoint
import Lavatube.Replay

/-!
# Rewriting a trace

In output mode `lava-tool` replays all threads of a trace and writes every packet again.
The output may have more packets than the input, so that the packets which barriers and
handles wait for have to be renumbered.  `output_packet_mapping` holds, for every thread,
how many packets its output has behind the first packets of its input.

A step of the model is what one thread does between two accesses to what it shares with the
others: the packet counters of replay and the mapping.  What an API callback writes is not
modelled, only how many packets.

* `Thread`, `move` — one thread in `replay_thread`.
* `produced` — for every output packet, the input packet that it was written for.
* `ThreadInv` — where a thread stands, and what it has recorded.
* `rewritten_dependencies` — the mapping is never missing, and every wait of the rewritten
  trace is for the packets that were written for those the input waits for.
-/

namespace Lavatube
namespace PacketMapping

open Transition
open Replay (Handle handlePasses barrierPasses)

/-! ## The tool -/

/-- The packets that are copied with two handles in front. -/
inductive DataKind where
  | update
  | initialization
deriving DecidableEq, Repr

/-- A packet of the input. -/
inductive InPacket where
  | apiCall (handles : List Handle)
  | data (kind : DataKind) (device object : Handle)
  | threadBarrier (indices : List Nat)
  | unsupported
deriving DecidableEq, Repr

/-- The handles that are read with a packet. -/
def InPacket.handles : InPacket → List Handle
  | .apiCall handles => handles
  | .data _ device object => [device, object]
  | .threadBarrier _ | .unsupported => []

/-- A packet of the output: one of a callback or an injected barrier, or the copy of an
update, an initialization or a barrier. -/
inductive OutPacket where
  | synthetic
  | data (kind : DataKind) (handles : List Handle)
  | threadBarrier (indices : List Nat)
deriving DecidableEq, Repr

/-- An output packet, with the input packet that it was written for. -/
structure Output where
  packet : OutPacket
  origin : Nat
deriving DecidableEq, Repr

/-- Where a thread stands in the loop of `replay_thread`: at its top; behind `step`; in the
reads of handles; at the translation of the handles of a copy; in front of the last `record`.
A barrier is recorded, completed, waited for, translated, written and recorded again. -/
inductive Pc where
  | idle
  | opened
  | handles (left : List Handle)
  | translating (done : List Handle)
  | written
  | barrierRead (inputPacket : Nat)
  | barrierWait (inputPacket next : Nat)
  | barrierTranslate (inputPacket : Nat) (done : List Nat)
  | barrierWritten (inputPacket : Nat)
  | finished
  | aborted
deriving DecidableEq, Repr

/-- A thread, with its packet counter in `thread_packet_numbers` and its row of
`output_packet_mapping`, which the other threads read. -/
structure Thread where
  pc : Pc := .idle
  packetOpen : Bool := false
  completed : Nat := 0
  packets : List Nat := [0]
  output : List Output := []
deriving DecidableEq, Repr

/-- All threads. -/
abbrev State := Nat → Thread

/-- `output_packet_mapping::record`, on the row of the thread. -/
def record (packets : List Nat) (inputPacket outputPacket : Nat) : Option (List Nat) :=
  if packets.length = inputPacket then some (packets ++ [outputPacket])
  else if packets.length ≤ inputPacket ∨ packets[inputPacket]? ≠ some outputPacket then none
  else some packets

/-- `output_packet_mapping::translate`. -/
def translate (threadCount : Nat) (s : State) (thread inputPacket : Nat) : Option Nat :=
  let outputPacket :=
    if thread < threadCount then (s thread).packets[inputPacket]?.getD (2 ^ 32 - 1)
    else 2 ^ 32 - 1
  if outputPacket = 2 ^ 32 - 1 then none else some outputPacket

/-- `write_output_handle`. -/
def writeOutputHandle (threadCount : Nat) (s : State) (thread : Nat) (handle : Handle) :
    Option Handle :=
  if handle.Own thread then some handle
  else if handle.packet = 2 ^ 32 - 1 then none
  else
    match translate threadCount s handle.thread.toNat (handle.packet + 1) with
    | none => none
    | some outputBoundary =>
        if outputBoundary = 0 then none
        else some { handle with packet := outputBoundary - 1 }

/-- The counters that the threads wait for. -/
def counters (s : State) : Nat → Nat := fun i => (s i).completed

def Thread.abort (thread : Thread) : Thread := { thread with pc := .aborted }

/-- The last `record` of a round. -/
def Thread.recordLast (thread : Thread) (inputPacket : Nat) : Thread :=
  match record thread.packets (inputPacket + 1) thread.output.length with
  | none => thread.abort
  | some packets => { thread with packets := packets, pc := .idle }

/-- The next access of a thread; `none` while it waits.  `count` is the number of packets
that an API callback writes, or that are injected in front of an update. -/
def move (threadCount : Nat) (input : Nat → List InPacket) (s : State) (t count : Nat) :
    Option Thread :=
  let thread := s t
  match thread.pc with
  | .idle =>
      -- `step` completes the packet that is open
      let completed := if thread.packetOpen then thread.completed + 1 else thread.completed
      match (input t)[completed]? with
      | none => some { thread with completed := completed, packetOpen := false, pc := .finished }
      | some _ => some { thread with completed := completed, packetOpen := true, pc := .opened }
  | .opened =>
      match (input t)[thread.completed]? with
      | none => none
      | some (.threadBarrier _) =>
          match record thread.packets (thread.completed + 1) (thread.output.length + 1) with
          | none => some thread.abort
          | some packets =>
              some { thread with packets := packets, pc := .barrierRead thread.completed }
      | some .unsupported => some thread.abort
      | some packet => some { thread with pc := .handles packet.handles }
  | .handles (handle :: left) =>
      if handlePasses (counters s) t handle then some { thread with pc := .handles left }
      else none
  | .handles [] =>
      match (input t)[thread.completed]? with
      | some (.apiCall _) =>
          if count = 0 then some thread.abort
          else
            some { thread with
              output := thread.output ++ List.replicate count ⟨.synthetic, thread.completed⟩
              pc := .written }
      | some (.data .update _ _) =>
          some { thread with
            output := thread.output ++ List.replicate count ⟨.synthetic, thread.completed⟩
            pc := .translating [] }
      | some (.data .initialization _ _) => some { thread with pc := .translating [] }
      | _ => none
  | .translating done =>
      match (input t)[thread.completed]? with
      | some (.data kind device object) =>
          match [device, object][done.length]? with
          | some handle =>
              match writeOutputHandle threadCount s t handle with
              | none => some thread.abort
              | some translated => some { thread with pc := .translating (done ++ [translated]) }
          | none =>
              some { thread with
                output := thread.output ++ [⟨.data kind done, thread.completed⟩]
                pc := .written }
      | _ => none
  | .written => some (thread.recordLast thread.completed)
  | .barrierRead inputPacket =>
      -- `read_barrier` completes the packet before it waits
      some { thread with
        completed := thread.completed + 1
        packetOpen := false
        pc := .barrierWait inputPacket 0 }
  | .barrierWait inputPacket next =>
      match (input t)[inputPacket]? with
      | some (.threadBarrier indices) =>
          match indices[next]? with
          | some index =>
              if barrierPasses (counters s) t next index then
                some { thread with pc := .barrierWait inputPacket (next + 1) }
              else
                none
          | none => some { thread with pc := .barrierTranslate inputPacket [] }
      | _ => none
  | .barrierTranslate inputPacket done =>
      match (input t)[inputPacket]? with
      | some (.threadBarrier indices) =>
          match indices[done.length]? with
          | some index =>
              match translate threadCount s done.length index with
              | none => some thread.abort
              | some outputIndex =>
                  some { thread with pc := .barrierTranslate inputPacket (done ++ [outputIndex]) }
          | none =>
              some { thread with
                output := thread.output ++ [⟨.threadBarrier done, inputPacket⟩]
                pc := .barrierWritten inputPacket }
      | _ => none
  | .barrierWritten inputPacket => some (thread.recordLast inputPacket)
  | .finished | .aborted => none

/-- A thread and the number of packets it writes, where that is open. -/
structure Move where
  thread : Nat
  count : Nat := 0
deriving DecidableEq, Repr

/-- One step of one thread. -/
def step (threadCount : Nat) (input : Nat → List InPacket) (s : State) (next : Move) :
    Option State :=
  if next.thread < threadCount then
    (move threadCount input s next.thread next.count).map (Function.update s next.thread)
  else
    none

/-! ## What is recorded -/

/-- The barrier that a thread has recorded and not written yet. -/
def promised : Pc → List Nat
  | .barrierRead inputPacket | .barrierWait inputPacket _ | .barrierTranslate inputPacket _ =>
      [inputPacket]
  | _ => []

/-- The input packets that the packets of the output were written for. -/
def produced (thread : Thread) : List Nat :=
  thread.output.map Output.origin ++ promised thread.pc

/-- A wait for `count` packets of a stream waits for exactly those that were written for the
first `inputCount` packets of the input. -/
def AwaitsExactly (origins : List Nat) (inputCount count : Nat) : Prop :=
  ∀ completed, count ≤ completed ↔
    ∀ j origin, origins[j]? = some origin → origin < inputCount → j < completed

/-- A row of the mapping counts the output packets; every input packet has one. -/
structure Recorded (packets origins : List Nat) : Prop where
  packets_eq : packets =
    (List.range packets.length).map fun k => origins.countP fun origin => origin < k
  positive : 0 < packets.length
  sorted : origins.Pairwise (· ≤ ·)
  bounded : ∀ origin ∈ origins, origin < packets.length
  written : ∀ k, k + 1 < packets.length → k ∈ origins

section

variable {packets origins : List Nat} {k v : Nat}

theorem Recorded.getElem?_eq (hrecorded : Recorded packets origins) (hk : k < packets.length) :
    packets[k]? = some (origins.countP fun origin => origin < k) := by
  rw [hrecorded.packets_eq, List.getElem?_map, List.getElem?_range hk]
  rfl

theorem Recorded.eq_countP (hrecorded : Recorded packets origins) (hv : packets[k]? = some v) :
    v = origins.countP fun origin => origin < k := by
  have hk := (List.getElem?_eq_some_iff.mp hv).1
  rw [hrecorded.getElem?_eq hk] at hv
  exact (Option.some.inj hv).symm

theorem Recorded.le_length (hrecorded : Recorded packets origins) (hv : packets[k]? = some v) :
    v ≤ origins.length := by
  rw [hrecorded.eq_countP hv]
  exact List.countP_le_length

/-- A recorded packet has been written at least once. -/
theorem Recorded.pos (hrecorded : Recorded packets origins) (hv : packets[k + 1]? = some v) :
    0 < v := by
  have hk := (List.getElem?_eq_some_iff.mp hv).1
  rw [hrecorded.eq_countP hv, List.countP_pos_iff]
  exact ⟨k, hrecorded.written k hk, by simp⟩

/-- **What a translated wait waits for.** -/
theorem Recorded.awaitsExactly (hrecorded : Recorded packets origins)
    (hv : packets[k]? = some v) : AwaitsExactly origins k v := by
  have hsorted : origins.Pairwise fun x y => decide (y < k) = true → decide (x < k) = true := by
    refine hrecorded.sorted.imp fun hxy hy => ?_
    simp only [decide_eq_true_eq] at hy ⊢
    omega
  rw [hrecorded.eq_countP hv]
  intro completed
  constructor
  · intro hle j origin horigin hlt
    have hcount := (PartitionPoint.getElem?_lt_countP_iff hsorted horigin).mpr (by simpa using hlt)
    omega
  · intro hall
    by_contra hless
    -- the last of the packets that are counted
    have hlast : completed < origins.length := by
      have := List.countP_le_length (p := fun origin => decide (origin < k)) (l := origins)
      omega
    have horigin := List.getElem?_eq_getElem hlast
    have hbelow := (PartitionPoint.getElem?_lt_countP_iff hsorted horigin).mp (by omega)
    exact absurd (hall completed _ horigin (by simpa using hbelow)) (lt_irrefl _)

/-- Packets are written for the input packet that is not recorded yet. -/
theorem Recorded.append (hrecorded : Recorded packets origins) (hlength : packets.length = k + 1)
    {more : List Nat} (hmore : ∀ origin ∈ more, origin = k) :
    Recorded packets (origins ++ more) := by
  constructor
  · -- none of them is in front of a packet that is recorded
    have hcount : ∀ i ∈ List.range packets.length,
        (origins.countP fun origin => origin < i) =
          (origins ++ more).countP fun origin => origin < i := by
      intro i hi
      have hnone : (more.countP fun origin => origin < i) = 0 := by
        rw [List.countP_eq_zero]
        intro origin horigin
        have := List.mem_range.mp hi
        rw [hmore origin horigin, decide_eq_true_eq]
        omega
      rw [List.countP_append, hnone, Nat.add_zero]
    rw [← List.map_congr_left hcount]
    exact hrecorded.packets_eq
  · exact hrecorded.positive
  · rw [List.pairwise_append]
    refine ⟨hrecorded.sorted, List.pairwise_of_forall_mem_list fun x hx y hy => ?_,
      fun x hx y hy => ?_⟩
    · rw [hmore x hx, hmore y hy]
    · have := hrecorded.bounded x hx
      rw [hmore y hy]
      omega
  · intro origin horigin
    cases List.mem_append.mp horigin with
    | inl hold => exact hrecorded.bounded origin hold
    | inr hnew =>
        rw [hmore origin hnew]
        omega
  · intro i hi
    exact List.mem_append_left _ (hrecorded.written i hi)

/-- There are at least as many output packets as recorded input packets. -/
theorem Recorded.length_le (hrecorded : Recorded packets origins) :
    packets.length ≤ origins.length + 1 := by
  have hsubset : List.range (packets.length - 1) ⊆ origins := by
    intro k hk
    have := List.mem_range.mp hk
    exact hrecorded.written k (by omega)
  have hle := (List.nodup_range.subperm hsubset).length_le
  rw [List.length_range] at hle
  omega

/-- **The record of a packet** that has been written. -/
theorem Recorded.record (hrecorded : Recorded packets origins) (hlength : packets.length = k + 1)
    (hwritten : k ∈ origins) :
    PacketMapping.record packets (k + 1) origins.length = some (packets ++ [origins.length]) ∧
      Recorded (packets ++ [origins.length]) origins := by
  refine ⟨by rw [PacketMapping.record, if_pos hlength], ?_, ?_, hrecorded.sorted, ?_, ?_⟩
  · have hall : (origins.countP fun origin => origin < packets.length) = origins.length := by
      rw [List.countP_eq_length]
      intro origin horigin
      simpa using hrecorded.bounded origin horigin
    rw [List.length_append, List.length_singleton, List.range_succ, List.map_append,
      ← hrecorded.packets_eq, List.map_singleton, hall]
  · simp
  · intro origin horigin
    have := hrecorded.bounded origin horigin
    simp only [List.length_append, List.length_singleton]
    omega
  · intro i hi
    simp only [List.length_append, List.length_singleton] at hi
    rcases Nat.lt_or_ge (i + 1) packets.length with hlt | hge
    · exact hrecorded.written i hlt
    · rwa [show i = k by omega]

end

/-! ## What a thread keeps -/

/-- A translated handle waits for the output of the packets that the handle waits for. -/
def HandleTranslated (s : State) (t : Nat) (handle translated : Handle) : Prop :=
  translated.index = handle.index ∧ translated.thread = handle.thread ∧
    if handle.Own t then translated.packet = handle.packet
    else (s handle.thread.toNat).packets[handle.packet + 1]? = some (translated.packet + 1)

/-- The indices of a barrier, as far as they are translated. -/
def BarrierTranslated (s : State) (indices done : List Nat) : Prop :=
  ∀ i v, done[i]? = some v →
    ∃ index, indices[i]? = some index ∧ (s i).packets[index]? = some v

/-- A copy in the output has the translated waits of the packet it is a copy of. -/
def OutputSound (packets : List InPacket) (s : State) (t : Nat) (output : Output) : Prop :=
  match output.packet with
  | .synthetic => True
  | .data kind handles => ∃ device object,
      packets[output.origin]? = some (.data kind device object) ∧
        List.Forall₂ (HandleTranslated s t) [device, object] handles
  | .threadBarrier done => ∃ indices, packets[output.origin]? = some (.threadBarrier indices) ∧
      done.length = indices.length ∧ BarrierTranslated s indices done

/-- A thread in the middle of a packet that is not a barrier. -/
structure InPacketInv (packets : List InPacket) (thread : Thread) (packet : InPacket) : Prop where
  packetOpen : thread.packetOpen = true
  recorded : thread.packets.length = thread.completed + 1
  packet_eq : packets[thread.completed]? = some packet

/-- A thread in the middle of a barrier, which it has completed already. -/
structure InBarrier (packets : List InPacket) (thread : Thread) (inputPacket : Nat)
    (indices : List Nat) : Prop where
  packetOpen : thread.packetOpen = false
  completed : thread.completed = inputPacket + 1
  recorded : thread.packets.length = inputPacket + 2
  last : thread.packets[inputPacket + 1]? = some (produced thread).length
  packet_eq : packets[inputPacket]? = some (.threadBarrier indices)

/-- Where a thread stands. -/
def Place (packets : List InPacket) (s : State) (t : Nat) (thread : Thread) : Prop :=
  match thread.pc with
  | .idle => thread.packets.length = thread.completed + (if thread.packetOpen then 2 else 1) ∧
      thread.completed + (if thread.packetOpen then 1 else 0) ≤ packets.length
  | .opened => ∃ packet, InPacketInv packets thread packet
  | .handles left => ∃ packet passed, InPacketInv packets thread packet ∧
      packet.handles = passed ++ left ∧ ∀ handle ∈ passed, handlePasses (counters s) t handle
  | .translating done => ∃ kind device object,
      InPacketInv packets thread (.data kind device object) ∧
        (∀ handle ∈ [device, object], handlePasses (counters s) t handle) ∧
        List.Forall₂ (HandleTranslated s t) ([device, object].take done.length) done
  | .written => (∃ packet, InPacketInv packets thread packet) ∧
      thread.completed ∈ produced thread
  | .barrierRead inputPacket => thread.packetOpen = true ∧ thread.completed = inputPacket ∧
      thread.packets.length = inputPacket + 2 ∧
      thread.packets[inputPacket + 1]? = some (produced thread).length ∧
      ∃ indices, packets[inputPacket]? = some (.threadBarrier indices)
  | .barrierWait inputPacket next => ∃ indices, InBarrier packets thread inputPacket indices ∧
      ∀ i index, i < next → indices[i]? = some index → barrierPasses (counters s) t i index
  | .barrierTranslate inputPacket done => ∃ indices,
      InBarrier packets thread inputPacket indices ∧
        (∀ i index, indices[i]? = some index → barrierPasses (counters s) t i index) ∧
        done.length ≤ indices.length ∧ BarrierTranslated s indices done
  | .barrierWritten inputPacket => ∃ indices, InBarrier packets thread inputPacket indices
  | .finished => thread.packets.length = thread.completed + 1 ∧
      thread.completed = packets.length
  | .aborted => False

/-- What every thread keeps; `s` is what it sees of the others. -/
structure ThreadInv (packets : List InPacket) (s : State) (t : Nat) (thread : Thread) : Prop where
  recorded : Recorded thread.packets (produced thread)
  outputs : ∀ output ∈ thread.output, OutputSound packets s t output
  place : Place packets s t thread

/-- The counters and the mapping only grow. -/
def Later (s next : State) : Prop :=
  ∀ i, (s i).completed ≤ (next i).completed ∧ (s i).packets <+: (next i).packets

section

variable {packets : List InPacket} {s next : State} {t : Nat} {thread : Thread}

theorem Later.getElem? (hlater : Later s next) {i k v : Nat} (hv : (s i).packets[k]? = some v) :
    (next i).packets[k]? = some v := by
  obtain ⟨more, hmore⟩ := (hlater i).2
  rw [← hmore, List.getElem?_append_left (List.getElem?_eq_some_iff.mp hv).1, hv]

theorem HandleTranslated.later {handle translated : Handle}
    (htranslated : HandleTranslated s t handle translated) (hlater : Later s next) :
    HandleTranslated next t handle translated := by
  obtain ⟨hindex, hthread, hpacket⟩ := htranslated
  refine ⟨hindex, hthread, ?_⟩
  split at hpacket
  · case _ hown => rwa [if_pos hown]
  · case _ hown =>
      rw [if_neg hown]
      exact hlater.getElem? hpacket

theorem BarrierTranslated.later {indices done : List Nat}
    (htranslated : BarrierTranslated s indices done) (hlater : Later s next) :
    BarrierTranslated next indices done := by
  intro i v hv
  obtain ⟨index, hindex, hpacket⟩ := htranslated i v hv
  exact ⟨index, hindex, hlater.getElem? hpacket⟩

theorem OutputSound.later {output : Output} (hsound : OutputSound packets s t output)
    (hlater : Later s next) : OutputSound packets next t output := by
  unfold OutputSound at hsound ⊢
  cases hpacket : output.packet with
  | synthetic => trivial
  | data kind handles =>
      simp only [hpacket] at hsound ⊢
      obtain ⟨device, object, hinput, hhandles⟩ := hsound
      exact ⟨device, object, hinput, hhandles.imp fun _ _ h => h.later hlater⟩
  | threadBarrier done =>
      simp only [hpacket] at hsound ⊢
      obtain ⟨indices, hinput, hlength, hdone⟩ := hsound
      exact ⟨indices, hinput, hlength, hdone.later hlater⟩

/-- What the others do does not move a thread. -/
theorem Place.later (hplace : Place packets s t thread) (hlater : Later s next) :
    Place packets next t thread := by
  have hgrows : ∀ i, counters s i ≤ counters next i := fun i => (hlater i).1
  unfold Place at hplace ⊢
  cases hpc : thread.pc with
  | handles left =>
      simp only [hpc] at hplace ⊢
      obtain ⟨packet, passed, hin, hsplit, hpassed⟩ := hplace
      exact ⟨packet, passed, hin, hsplit, fun handle hmem => (hpassed handle hmem).mono hgrows⟩
  | translating done =>
      simp only [hpc] at hplace ⊢
      obtain ⟨kind, device, object, hin, hpassed, hdone⟩ := hplace
      exact ⟨kind, device, object, hin, fun handle hmem => (hpassed handle hmem).mono hgrows,
        hdone.imp fun _ _ h => h.later hlater⟩
  | barrierWait inputPacket number =>
      simp only [hpc] at hplace ⊢
      obtain ⟨indices, hin, hpassed⟩ := hplace
      exact ⟨indices, hin, fun i index hi hindex => (hpassed i index hi hindex).mono hgrows⟩
  | barrierTranslate inputPacket done =>
      simp only [hpc] at hplace ⊢
      obtain ⟨indices, hin, hpassed, hlength, hdone⟩ := hplace
      exact ⟨indices, hin, fun i index hindex => (hpassed i index hindex).mono hgrows, hlength,
        hdone.later hlater⟩
  | aborted => simp only [hpc] at hplace
  | _ => simpa only [hpc] using hplace

theorem ThreadInv.later (hinv : ThreadInv packets s t thread) (hlater : Later s next) :
    ThreadInv packets next t thread :=
  ⟨hinv.recorded, fun output hmem => (hinv.outputs output hmem).later hlater,
    hinv.place.later hlater⟩

end

/-! ## The steps of a thread -/

/-- A trace that can be rewritten: its packets are of the supported types, its handles and
barriers name threads of the trace, and a barrier does not name packets of its own thread
behind itself. -/
structure ValidTrace (threadCount : Nat) (input : Nat → List InPacket) : Prop where
  supported : ∀ t, InPacket.unsupported ∉ input t
  handles : ∀ t, ∀ packet ∈ input t, ∀ handle ∈ packet.handles, ¬ handle.Own t →
    handle.thread.toNat < threadCount
  barriers : ∀ t k indices, (input t)[k]? = some (InPacket.threadBarrier indices) →
    indices.length ≤ threadCount ∧ ∀ index, indices[t]? = some index → index ≤ k

/-- An API callback writes a packet. -/
def callbackWrites (input : Nat → List InPacket) (s : State) (next : Move) : Bool :=
  match (s next.thread).pc, (input next.thread)[(s next.thread).completed]? with
  | .handles [], some (.apiCall _) => next.count ≠ 0
  | _, _ => true

/-- The packets of the output are counted in a `uint32_t`, whose last value stands for a packet that
is not there.  This bounds how much is written and nothing else: more packets have no numbers. -/
def Countable (s : State) : Prop := ∀ i, (s i).output.length + 1 < 2 ^ 32 - 1

section

variable {threadCount : Nat} {input : Nat → List InPacket} {s : State} {t : Nat} {thread : Thread}

theorem Countable.produced_lt (hcountable : Countable s) (i : Nat) :
    (produced (s i)).length < 2 ^ 32 - 1 := by
  have hpromised : (promised (s i).pc).length ≤ 1 := by
    cases (s i).pc <;> simp [promised]
  have hlength := hcountable i
  simp only [produced, List.length_append, List.length_map]
  omega

/-- What a thread has completed is recorded. -/
theorem ThreadInv.completed_lt {packets : List InPacket} (hinv : ThreadInv packets s t thread) :
    thread.completed < thread.packets.length := by
  have hplace := hinv.place
  unfold Place at hplace
  cases hpc : thread.pc with
  | idle =>
      simp only [hpc] at hplace
      have hlength := hplace.1
      split at hlength <;> omega
  | opened =>
      simp only [hpc] at hplace
      obtain ⟨packet, hin⟩ := hplace
      exact hin.recorded ▸ Nat.lt_succ_self _
  | handles left =>
      simp only [hpc] at hplace
      obtain ⟨packet, passed, hin, -⟩ := hplace
      exact hin.recorded ▸ Nat.lt_succ_self _
  | translating done =>
      simp only [hpc] at hplace
      obtain ⟨kind, device, object, hin, -⟩ := hplace
      exact hin.recorded ▸ Nat.lt_succ_self _
  | written =>
      simp only [hpc] at hplace
      obtain ⟨⟨packet, hin⟩, -⟩ := hplace
      exact hin.recorded ▸ Nat.lt_succ_self _
  | barrierRead inputPacket =>
      simp only [hpc] at hplace
      omega
  | barrierWait inputPacket number =>
      simp only [hpc] at hplace
      obtain ⟨indices, hin, -⟩ := hplace
      rw [hin.completed, hin.recorded]
      omega
  | barrierTranslate inputPacket done =>
      simp only [hpc] at hplace
      obtain ⟨indices, hin, -⟩ := hplace
      rw [hin.completed, hin.recorded]
      omega
  | barrierWritten inputPacket =>
      simp only [hpc] at hplace
      obtain ⟨indices, hin⟩ := hplace
      rw [hin.completed, hin.recorded]
      omega
  | finished =>
      simp only [hpc] at hplace
      omega
  | aborted => simp only [hpc] at hplace

/-- **`translate` finds what is recorded.** -/
theorem translate_spec (hinv : ∀ i, ThreadInv (input i) s i (s i)) (hcountable : Countable s)
    {i index : Nat} (hi : i < threadCount) (hindex : index < (s i).packets.length) :
    ∃ v, translate threadCount s i index = some v ∧ (s i).packets[index]? = some v := by
  have hv := List.getElem?_eq_getElem hindex
  have hle := (hinv i).recorded.le_length hv
  have hbound := hcountable.produced_lt i
  refine ⟨_, ?_, hv⟩
  unfold translate
  rw [if_pos hi, hv, Option.getD_some, if_neg (by omega)]

/-- **`write_output_handle`**, behind the wait of `read_handle`. -/
theorem writeOutputHandle_spec (hinv : ∀ i, ThreadInv (input i) s i (s i))
    (hcountable : Countable s) {handle : Handle}
    (hthread : ¬ handle.Own t → handle.thread.toNat < threadCount)
    (hpasses : handlePasses (counters s) t handle) :
    ∃ translated, writeOutputHandle threadCount s t handle = some translated ∧
      HandleTranslated s t handle translated := by
  unfold writeOutputHandle
  by_cases hown : handle.Own t
  · rw [if_pos hown]
    exact ⟨handle, rfl, rfl, rfl, by rw [if_pos hown]⟩
  · have hcompleted : handle.packet < (s handle.thread.toNat).completed :=
      hpasses.resolve_left hown
    have hlt := (hinv handle.thread.toNat).completed_lt
    obtain ⟨v, htranslate, hv⟩ := translate_spec hinv hcountable (hthread hown)
      (show handle.packet + 1 < (s handle.thread.toNat).packets.length by omega)
    have hpositive := (hinv handle.thread.toNat).recorded.pos hv
    have hlength := (hinv handle.thread.toNat).recorded.length_le
    have hbound := hcountable.produced_lt handle.thread.toNat
    rw [if_neg hown, if_neg (by omega)]
    simp only [htranslate]
    rw [if_neg (by omega)]
    refine ⟨_, rfl, rfl, rfl, ?_⟩
    rw [if_neg hown, hv]
    simp only [Option.some.injEq]
    omega

theorem InPacketInv.goto {packets : List InPacket} {packet : InPacket}
    (hin : InPacketInv packets thread packet) (pc : Pc) :
    InPacketInv packets { thread with pc := pc } packet :=
  ⟨hin.packetOpen, hin.recorded, hin.packet_eq⟩

theorem InBarrier.goto {packets : List InPacket} {inputPacket : Nat} {indices : List Nat}
    (hin : InBarrier packets thread inputPacket indices) {pc : Pc}
    (hpromised : promised pc = promised thread.pc) :
    InBarrier packets { thread with pc := pc } inputPacket indices := by
  refine ⟨hin.packetOpen, hin.completed, hin.recorded, ?_, hin.packet_eq⟩
  simpa only [produced, hpromised] using hin.last

/-- A thread goes on without output. -/
theorem ThreadInv.goto {packets : List InPacket} (hinv : ThreadInv packets s t thread) {pc : Pc}
    (hpromised : promised pc = promised thread.pc)
    (hplace : Place packets s t { thread with pc := pc }) :
    ThreadInv packets s t { thread with pc := pc } := by
  refine ⟨?_, hinv.outputs, hplace⟩
  simpa only [produced, hpromised] using hinv.recorded

/-- The end of a round, behind a packet that is not a barrier. -/
theorem recordLast_written {packets : List InPacket} (hinv : ThreadInv packets s t thread)
    (hpc : thread.pc = .written) : ThreadInv packets s t (thread.recordLast thread.completed) := by
  have hplace := hinv.place
  simp only [Place, hpc] at hplace
  obtain ⟨⟨packet, hin⟩, hwritten⟩ := hplace
  have hproduced : (produced thread).length = thread.output.length := by
    simp [produced, promised, hpc]
  obtain ⟨hrecord, hrecorded⟩ := hinv.recorded.record hin.recorded hwritten
  rw [hproduced] at hrecord hrecorded
  unfold Thread.recordLast
  simp only [hrecord]
  refine ⟨?_, hinv.outputs, ?_⟩
  · simpa only [produced, promised, hpc] using hrecorded
  · simp only [Place, hin.packetOpen, List.length_append, List.length_singleton, hin.recorded,
      if_true, true_and]
    exact (List.getElem?_eq_some_iff.mp hin.packet_eq).1

/-- The end of a round, behind a barrier: its record is the one that was made before. -/
theorem recordLast_barrier {packets : List InPacket} (hinv : ThreadInv packets s t thread)
    {inputPacket : Nat} (hpc : thread.pc = .barrierWritten inputPacket) :
    ThreadInv packets s t (thread.recordLast inputPacket) := by
  have hplace := hinv.place
  simp only [Place, hpc] at hplace
  obtain ⟨indices, hin⟩ := hplace
  have hproduced : (produced thread).length = thread.output.length := by
    simp [produced, promised, hpc]
  have hrecord : record thread.packets (inputPacket + 1) thread.output.length =
      some thread.packets := by
    have hlast := hin.last
    rw [hproduced] at hlast
    have hlength := hin.recorded
    rw [record, if_neg (by omega), if_neg]
    rintro (hshort | hother)
    · omega
    · exact hother hlast
  unfold Thread.recordLast
  simp only [hrecord]
  apply hinv.goto
  · simp [promised, hpc]
  · simp only [Place, hin.packetOpen, hin.recorded, hin.completed]
    exact ⟨rfl, (List.getElem?_eq_some_iff.mp hin.packet_eq).1⟩

/-- A barrier is opened and recorded. -/
theorem barrier_recorded {packets : List InPacket} (hinv : ThreadInv packets s t thread)
    (hpc : thread.pc = .opened) {indices : List Nat}
    (hbarrier : packets[thread.completed]? = some (.threadBarrier indices)) :
    ∃ mapped, record thread.packets (thread.completed + 1) (thread.output.length + 1) =
        some mapped ∧
      ThreadInv packets s t
        { thread with packets := mapped, pc := .barrierRead thread.completed } := by
  have hplace := hinv.place
  simp only [Place, hpc] at hplace
  obtain ⟨packet, hin⟩ := hplace
  have hproduced : produced thread = thread.output.map Output.origin := by
    simp [produced, promised, hpc]
  have happended : Recorded thread.packets (produced thread ++ [thread.completed]) :=
    hinv.recorded.append hin.recorded (by simp)
  obtain ⟨hrecord, hrecorded⟩ := happended.record hin.recorded (by simp)
  have hlength : (produced thread ++ [thread.completed]).length = thread.output.length + 1 := by
    simp [hproduced]
  rw [hlength] at hrecord hrecorded
  refine ⟨_, hrecord, ?_, hinv.outputs, ?_⟩
  · rw [hproduced] at hrecorded
    exact hrecorded
  · simp only [Place, produced, promised, List.length_append, List.length_singleton,
      List.length_map, hin.recorded, hin.packetOpen, true_and]
    refine ⟨?_, indices, hbarrier⟩
    rw [List.getElem?_append_right (by rw [hin.recorded]), hin.recorded]
    simp

/-- Packets are written for the packet that is open. -/
theorem ThreadInv.write {packets : List InPacket} (hinv : ThreadInv packets s t thread)
    {packet : InPacket} (hin : InPacketInv packets thread packet)
    (hpromised : promised thread.pc = []) {outputs : List Output}
    (horigin : ∀ output ∈ outputs, output.origin = thread.completed)
    (hsound : ∀ output ∈ outputs, OutputSound packets s t output) {pc : Pc}
    (hpc : promised pc = [])
    (hplace : Place packets s t { thread with output := thread.output ++ outputs, pc := pc }) :
    ThreadInv packets s t { thread with output := thread.output ++ outputs, pc := pc } := by
  refine ⟨?_, ?_, hplace⟩
  · have happended := hinv.recorded.append hin.recorded
      (show ∀ origin ∈ outputs.map Output.origin, origin = thread.completed by
        intro origin hmem
        obtain ⟨output, houtput, rfl⟩ := List.mem_map.mp hmem
        exact horigin output houtput)
    simpa only [produced, hpromised, hpc, List.append_nil, List.map_append] using happended
  · intro output hmem
    cases List.mem_append.mp hmem with
    | inl hold => exact hinv.outputs output hold
    | inr hnew => exact hsound output hnew

section Move

variable {count : Nat} {moved : Thread}

/-- A thread that is idle opens its next packet, or is at the end. -/
theorem move_idle_inv (hown : ThreadInv (input t) s t (s t)) (hpc : (s t).pc = .idle)
    (hmove : move threadCount input s t count = some moved) :
    ThreadInv (input t) s t moved := by
  have hplace := hown.place
  unfold Place at hplace
  unfold move at hmove
  simp only [hpc] at hplace hmove
  generalize hcompleted : (if (s t).packetOpen = true then (s t).completed + 1
    else (s t).completed) = completed at hmove
  have hlength : (s t).packets.length = completed + 1 := by
    rw [← hcompleted, hplace.1]
    split <;> omega
  have hrecorded : Recorded (s t).packets ((s t).output.map Output.origin) := by
    simpa only [produced, promised, hpc, List.append_nil] using hown.recorded
  split at hmove
  · case _ hnone =>
      cases hmove
      refine ⟨by simpa [produced, promised] using hrecorded, hown.outputs, hlength, ?_⟩
      have hend := List.getElem?_eq_none_iff.mp hnone
      have hinside : completed ≤ (input t).length := by
        rw [← hcompleted]
        split <;> simp_all
      exact le_antisymm hinside hend
  · case _ packet hpacket =>
      cases hmove
      exact ⟨by simpa [produced, promised] using hrecorded, hown.outputs, packet, rfl, hlength,
        hpacket⟩

/-- A packet that is open is a call, data or a barrier. -/
theorem move_opened_inv (hvalid : ValidTrace threadCount input)
    (hown : ThreadInv (input t) s t (s t)) (hpc : (s t).pc = .opened)
    (hmove : move threadCount input s t count = some moved) :
    ThreadInv (input t) s t moved := by
  have hplace := hown.place
  unfold Place at hplace
  unfold move at hmove
  simp only [hpc] at hplace hmove
  obtain ⟨packet, hin⟩ := hplace
  simp only [hin.packet_eq] at hmove
  cases packet with
  | threadBarrier indices =>
      obtain ⟨mapped, hrecord, hnext⟩ := barrier_recorded hown hpc hin.packet_eq
      simp only [hrecord] at hmove
      cases hmove
      exact hnext
  | unsupported => exact absurd (List.mem_of_getElem? hin.packet_eq) (hvalid.supported t)
  | apiCall handles =>
      cases hmove
      apply hown.goto
      · simp [promised, hpc]
      · exact ⟨.apiCall handles, [], hin.goto _, rfl, by simp⟩
  | data kind device object =>
      cases hmove
      apply hown.goto
      · simp [promised, hpc]
      · exact ⟨.data kind device object, [], hin.goto _, rfl, by simp⟩

/-- The handles of a packet are passed one after the other, and then it is written. -/
theorem move_handles_inv {left : List Handle} (hown : ThreadInv (input t) s t (s t))
    (hwrites : callbackWrites input s ⟨t, count⟩ = true)
    (hpc : (s t).pc = .handles left)
    (hmove : move threadCount input s t count = some moved) :
    ThreadInv (input t) s t moved := by
  have hplace := hown.place
  unfold Place at hplace
  unfold move at hmove
  simp only [hpc] at hplace hmove
  obtain ⟨packet, passed, hin, hsplit, hpassed⟩ := hplace
  cases left with
  | cons handle left =>
      simp only at hmove
      split at hmove
      · case _ hpasses =>
          cases hmove
          apply hown.goto
          · simp [promised, hpc]
          · refine ⟨packet, passed ++ [handle], hin.goto _, by simpa using hsplit, ?_⟩
            intro other hmem
            cases List.mem_append.mp hmem with
            | inl hold => exact hpassed other hold
            | inr hnew =>
                rw [List.mem_singleton.mp hnew]
                exact hpasses
      · cases hmove
  | nil =>
      rw [List.append_nil] at hsplit
      simp only [hin.packet_eq] at hmove
      cases packet with
      | threadBarrier indices => cases hmove
      | unsupported => cases hmove
      | apiCall handles =>
          simp only at hmove
          split at hmove
          · case _ hzero =>
              simp only [callbackWrites, hpc, hin.packet_eq] at hwrites
              exact absurd hzero (by simpa using hwrites)
          · case _ hcount =>
              cases hmove
              apply hown.write hin (by simp [promised, hpc]) _ _ rfl
              · refine ⟨⟨_, hin.packetOpen, hin.recorded, hin.packet_eq⟩, ?_⟩
                simp [produced, hcount]
              · intro output hmem
                rw [List.eq_of_mem_replicate hmem]
              · intro output hmem
                rw [List.eq_of_mem_replicate hmem]
                trivial
      | data kind device object =>
          have hall : ∀ handle ∈ [device, object], handlePasses (counters s) t handle := by
            intro handle hmem
            exact hpassed handle (hsplit ▸ hmem)
          cases kind with
          | update =>
              cases hmove
              apply hown.write hin (by simp [promised, hpc]) _ _ rfl
              · exact ⟨.update, device, object,
                  ⟨hin.packetOpen, hin.recorded, hin.packet_eq⟩, hall, .nil⟩
              · intro output hmem
                rw [List.eq_of_mem_replicate hmem]
              · intro output hmem
                rw [List.eq_of_mem_replicate hmem]
                trivial
          | initialization =>
              cases hmove
              apply hown.goto
              · simp [promised, hpc]
              · exact ⟨.initialization, device, object, hin.goto _, hall, .nil⟩

/-- The handles of an initialization are translated one after the other. -/
theorem move_translating_inv {done : List Handle} (hvalid : ValidTrace threadCount input)
    (hinv : ∀ i, ThreadInv (input i) s i (s i)) (hcountable : Countable s)
    (hpc : (s t).pc = .translating done)
    (hmove : move threadCount input s t count = some moved) :
    ThreadInv (input t) s t moved := by
  have hown := hinv t
  have hplace := hown.place
  unfold Place at hplace
  unfold move at hmove
  simp only [hpc] at hplace hmove
  obtain ⟨kind, device, object, hin, hpassed, hdone⟩ := hplace
  simp only [hin.packet_eq] at hmove
  split at hmove
  · case _ handle hhandle =>
      have hmem := List.mem_of_getElem? hhandle
      obtain ⟨translated, hwrite, htranslated⟩ := writeOutputHandle_spec hinv hcountable
        (hvalid.handles t _ (List.mem_of_getElem? hin.packet_eq) handle hmem)
        (hpassed handle hmem)
      simp only [hwrite] at hmove
      cases hmove
      apply hown.goto
      · simp [promised, hpc]
      · refine ⟨kind, device, object, hin.goto _, hpassed, ?_⟩
        rw [List.length_append, List.length_singleton,
          List.take_add_one, hhandle]
        exact List.rel_append hdone (.cons htranslated .nil)
  · case _ hall =>
      cases hmove
      have hlength := List.getElem?_eq_none_iff.mp hall
      rw [List.take_of_length_le hlength] at hdone
      apply hown.write hin (by simp [promised, hpc]) _ _ rfl
      · refine ⟨⟨_, hin.packetOpen, hin.recorded, hin.packet_eq⟩, ?_⟩
        simp [produced]
      · simp
      · intro output hmem
        rw [List.mem_singleton.mp hmem]
        exact ⟨device, object, hin.packet_eq, hdone⟩

/-- A barrier is completed before it waits. -/
theorem move_barrierRead_inv {inputPacket : Nat} (hown : ThreadInv (input t) s t (s t))
    (hpc : (s t).pc = .barrierRead inputPacket)
    (hmove : move threadCount input s t count = some moved) :
    ThreadInv (input t) s t moved := by
  have hplace := hown.place
  unfold Place at hplace
  unfold move at hmove
  simp only [hpc] at hplace hmove
  obtain ⟨hopen, hcompleted, hlength, hlast, indices, hbarrier⟩ := hplace
  cases hmove
  have hsame : produced { s t with
      completed := (s t).completed + 1
      packetOpen := false
      pc := .barrierWait inputPacket 0 } = produced (s t) := by
    simp [produced, promised, hpc]
  refine ⟨hsame ▸ hown.recorded, hown.outputs, indices,
    ⟨rfl, by rw [hcompleted], hlength, hsame ▸ hlast, hbarrier⟩, ?_⟩
  intro i index hi
  exact absurd hi (Nat.not_lt_zero i)

/-- A barrier waits for the other threads one after the other. -/
theorem move_barrierWait_inv {inputPacket number : Nat} (hown : ThreadInv (input t) s t (s t))
    (hpc : (s t).pc = .barrierWait inputPacket number)
    (hmove : move threadCount input s t count = some moved) :
    ThreadInv (input t) s t moved := by
  have hplace := hown.place
  unfold Place at hplace
  unfold move at hmove
  simp only [hpc] at hplace hmove
  obtain ⟨indices, hin, hpassed⟩ := hplace
  simp only [hin.packet_eq] at hmove
  split at hmove
  · case _ index hindex =>
      split at hmove
      · case _ hpasses =>
          cases hmove
          apply hown.goto
          · simp [promised, hpc]
          · refine ⟨indices, hin.goto (by simp [promised, hpc]), fun i other hi hother => ?_⟩
            rcases Nat.lt_or_ge i number with hlt | hge
            · exact hpassed i other hlt hother
            · obtain rfl : i = number := by omega
              cases hindex.symm.trans hother
              exact hpasses
      · cases hmove
  · case _ hall =>
      cases hmove
      have hlength := List.getElem?_eq_none_iff.mp hall
      apply hown.goto
      · simp [promised, hpc]
      · refine ⟨indices, hin.goto (by simp [promised, hpc]), fun i index hindex => ?_,
          Nat.zero_le _, fun i v hv => by simp at hv⟩
        have hi := (List.getElem?_eq_some_iff.mp hindex).1
        exact hpassed i index (by omega) hindex

/-- The numbers of a barrier are translated one after the other, and then it is written. -/
theorem move_barrierTranslate_inv {inputPacket : Nat} {done : List Nat}
    (hvalid : ValidTrace threadCount input)
    (hinv : ∀ i, ThreadInv (input i) s i (s i)) (hcountable : Countable s)
    (hpc : (s t).pc = .barrierTranslate inputPacket done)
    (hmove : move threadCount input s t count = some moved) :
    ThreadInv (input t) s t moved := by
  have hown := hinv t
  have hplace := hown.place
  unfold Place at hplace
  unfold move at hmove
  simp only [hpc] at hplace hmove
  obtain ⟨indices, hin, hpassed, hle, hdone⟩ := hplace
  simp only [hin.packet_eq] at hmove
  obtain ⟨hcount, hself⟩ := hvalid.barriers t inputPacket indices hin.packet_eq
  split at hmove
  · case _ index hindex =>
      have hlt := (List.getElem?_eq_some_iff.mp hindex).1
      have hrecorded : index < (s done.length).packets.length := by
        rcases hpassed done.length index hindex with hsame | hcompleted
        · -- the thread itself, which does not wait for its own packets
          have hindex' := hself index (hsame ▸ hindex)
          rw [hsame, hin.recorded]
          omega
        · exact hcompleted.trans_lt (hinv done.length).completed_lt
      obtain ⟨v, htranslate, hv⟩ := translate_spec hinv hcountable
        (show done.length < threadCount by omega) hrecorded
      simp only [htranslate] at hmove
      cases hmove
      apply hown.goto
      · simp [promised, hpc]
      · refine ⟨indices, hin.goto (by simp [promised, hpc]), hpassed, by simpa using hlt, ?_⟩
        intro i w hw
        rcases Nat.lt_or_ge i done.length with hold | hnew
        · rw [List.getElem?_append_left hold] at hw
          exact hdone i w hw
        · rw [List.getElem?_append_right hnew] at hw
          obtain rfl : i = done.length := by
            have := (List.getElem?_eq_some_iff.mp hw).1
            simp only [List.length_singleton] at this
            omega
          simp only [Nat.sub_self, List.getElem?_cons_zero, Option.some.injEq] at hw
          exact ⟨index, hindex, hw ▸ hv⟩
  · case _ hall =>
      cases hmove
      have hlength := List.getElem?_eq_none_iff.mp hall
      -- the barrier that was promised
      have hsame : produced { s t with
          output := (s t).output ++ [⟨.threadBarrier done, inputPacket⟩]
          pc := .barrierWritten inputPacket } = produced (s t) := by
        simp [produced, promised, hpc]
      refine ⟨hsame ▸ hown.recorded, ?_, indices, hin.packetOpen, hin.completed,
        hin.recorded, hsame ▸ hin.last, hin.packet_eq⟩
      intro output hmem
      cases List.mem_append.mp hmem with
      | inl hold => exact hown.outputs output hold
      | inr hnew =>
          rw [List.mem_singleton.mp hnew]
          exact ⟨indices, hin.packet_eq, le_antisymm hle hlength, hdone⟩

/-- **One step of a thread** keeps what it keeps, with what it sees of the others. -/
theorem move_inv (hvalid : ValidTrace threadCount input)
    (hinv : ∀ i, ThreadInv (input i) s i (s i)) (hcountable : Countable s)
    (hwrites : callbackWrites input s ⟨t, count⟩ = true)
    (hmove : move threadCount input s t count = some moved) :
    ThreadInv (input t) s t moved := by
  cases hpc : (s t).pc with
  | idle => exact move_idle_inv (hinv t) hpc hmove
  | opened => exact move_opened_inv hvalid (hinv t) hpc hmove
  | handles left => exact move_handles_inv (hinv t) hwrites hpc hmove
  | translating done => exact move_translating_inv hvalid hinv hcountable hpc hmove
  | written =>
      unfold move at hmove
      simp only [hpc] at hmove
      cases hmove
      exact recordLast_written (hinv t) hpc
  | barrierRead inputPacket => exact move_barrierRead_inv (hinv t) hpc hmove
  | barrierWait inputPacket number => exact move_barrierWait_inv (hinv t) hpc hmove
  | barrierTranslate inputPacket done =>
      exact move_barrierTranslate_inv hvalid hinv hcountable hpc hmove
  | barrierWritten inputPacket =>
      unfold move at hmove
      simp only [hpc] at hmove
      cases hmove
      exact recordLast_barrier (hinv t) hpc
  | finished =>
      unfold move at hmove
      simp only [hpc] at hmove
      cases hmove
  | aborted =>
      have hplace := (hinv t).place
      simp only [Place, hpc] at hplace

end Move

theorem record_prefix {packets mapped : List Nat} {inputPacket outputPacket : Nat}
    (hrecord : record packets inputPacket outputPacket = some mapped) : packets <+: mapped := by
  unfold record at hrecord
  split at hrecord
  · cases hrecord
    exact List.prefix_append _ _
  · split at hrecord
    · cases hrecord
    · cases hrecord
      exact List.prefix_rfl

/-- A step of a thread takes nothing back. -/
structure Extends (thread moved : Thread) : Prop where
  completed : thread.completed ≤ moved.completed
  packets : thread.packets <+: moved.packets
  output : thread.output.length ≤ moved.output.length

theorem recordLast_extends (thread : Thread) (inputPacket : Nat) :
    Extends thread (thread.recordLast inputPacket) := by
  unfold Thread.recordLast
  split
  · exact ⟨le_rfl, List.prefix_rfl, le_rfl⟩
  · case _ mapped hrecord => exact ⟨le_rfl, record_prefix hrecord, le_rfl⟩

theorem move_extends {count : Nat} {moved : Thread}
    (hmove : move threadCount input s t count = some moved) : Extends (s t) moved := by
  have hstay : ∀ pc, Extends (s t) { s t with pc := pc } :=
    fun pc => ⟨le_rfl, List.prefix_rfl, le_rfl⟩
  have hwrite : ∀ outputs pc,
      Extends (s t) { s t with output := (s t).output ++ outputs, pc := pc } := by
    intro outputs pc
    refine ⟨le_rfl, List.prefix_rfl, ?_⟩
    simp only [List.length_append]
    exact Nat.le_add_right _ _
  -- a step moves on in the program only, or also writes or records something
  unfold move at hmove
  cases hpc : (s t).pc with
  | idle =>
      simp only [hpc] at hmove
      split at hmove
      all_goals
        cases hmove
        refine ⟨?_, List.prefix_rfl, le_rfl⟩
        simp only
        -- the packet that was open is complete
        split <;> omega
  | opened =>
      simp only [hpc] at hmove
      split at hmove
      · cases hmove
      · split at hmove
        · cases hmove
          exact hstay _
        · case _ mapped hrecord =>
            cases hmove
            exact ⟨le_rfl, record_prefix hrecord, le_rfl⟩
      · cases hmove
        exact hstay _
      · cases hmove
        exact hstay _
  | handles left =>
      cases left with
      | cons handle left =>
          simp only [hpc] at hmove
          split at hmove
          · cases hmove
            exact hstay _
          · cases hmove
      | nil =>
          simp only [hpc] at hmove
          split at hmove
          · split at hmove
            · cases hmove
              exact hstay _
            · cases hmove
              exact hwrite _ _
          · cases hmove
            exact hwrite _ _
          · cases hmove
            exact hstay _
          · cases hmove
  | translating done =>
      simp only [hpc] at hmove
      split at hmove
      · split at hmove
        · split at hmove
          · cases hmove
            exact hstay _
          · cases hmove
            exact hstay _
        · cases hmove
          exact hwrite _ _
      · cases hmove
  | written =>
      simp only [hpc] at hmove
      cases hmove
      exact recordLast_extends _ _
  | barrierRead inputPacket =>
      simp only [hpc] at hmove
      cases hmove
      exact ⟨Nat.le_succ _, List.prefix_rfl, le_rfl⟩
  | barrierWait inputPacket number =>
      simp only [hpc] at hmove
      split at hmove
      · split at hmove
        · split at hmove
          · cases hmove
            exact hstay _
          · cases hmove
        · cases hmove
          exact hstay _
      · cases hmove
  | barrierTranslate inputPacket done =>
      simp only [hpc] at hmove
      split at hmove
      · split at hmove
        · split at hmove
          · cases hmove
            exact hstay _
          · cases hmove
            exact hstay _
        · cases hmove
          exact hwrite _ _
      · cases hmove
  | barrierWritten inputPacket =>
      simp only [hpc] at hmove
      cases hmove
      exact recordLast_extends _ _
  | finished | aborted =>
      simp only [hpc] at hmove
      cases hmove

/-- **One step of one thread.** -/
theorem step_inv (hvalid : ValidTrace threadCount input)
    (hinv : Countable s → ∀ i, ThreadInv (input i) s i (s i)) {next : Move} {final : State}
    (hwrites : callbackWrites input s next = true)
    (hstep : step threadCount input s next = some final) (hcountable : Countable final) :
    ∀ i, ThreadInv (input i) final i (final i) := by
  unfold step at hstep
  split at hstep
  · obtain ⟨moved, hmove, rfl⟩ := Option.map_eq_some_iff.mp hstep
    have hextends := move_extends hmove
    have hother : ∀ i, i ≠ next.thread → Function.update s next.thread moved i = s i :=
      fun i hi => Function.update_of_ne hi _ _
    have hself : Function.update s next.thread moved next.thread = moved :=
      Function.update_self _ _ _
    have hlater : Later s (Function.update s next.thread moved) := by
      intro i
      by_cases hi : i = next.thread
      · subst hi
        rw [hself]
        exact ⟨hextends.completed, hextends.packets⟩
      · rw [hother i hi]
        exact ⟨le_rfl, List.prefix_rfl⟩
    have hbefore : Countable s := by
      intro i
      have hafter := hcountable i
      by_cases hi : i = next.thread
      · subst hi
        rw [hself] at hafter
        have := hextends.output
        omega
      · rwa [hother i hi] at hafter
    intro i
    by_cases hi : i = next.thread
    · subst hi
      rw [hself]
      exact (move_inv hvalid (hinv hbefore) hbefore hwrites hmove).later hlater
    · rw [hother i hi]
      exact (hinv hbefore i).later hlater
  · cases hstep

/-- All threads in front of their first packets. -/
theorem threadInv_init (packets : List InPacket) (s : State) (t : Nat) :
    ThreadInv packets s t {} := by
  refine ⟨⟨rfl, Nat.zero_lt_one, List.Pairwise.nil, ?_, ?_⟩, ?_, ?_⟩
  · intro origin horigin
    cases horigin
  · intro k hk
    simp at hk
  · intro output houtput
    cases houtput
  · simp [Place]

end

/-! ## The rewritten trace -/

/-- In a replay of the rewritten trace, all packets are complete that were written for the
first `inputCount` packets of a thread. -/
def Complete (s : State) (completed : Nat → Nat) (i inputCount : Nat) : Prop :=
  ∀ j origin, (produced (s i))[j]? = some origin → origin < inputCount → j < completed i

/-- A copy of an update, an initialization or a barrier waits, in every replay of the
rewritten trace, for exactly what was written for the packets that the input waits for. -/
def WaitsForOutput (packets : List InPacket) (s : State) (t : Nat) (output : Output) : Prop :=
  match output.packet with
  | .synthetic => True
  | .data kind handles => ∃ device object,
      packets[output.origin]? = some (.data kind device object) ∧
        List.Forall₂ (fun handle translated =>
          translated.index = handle.index ∧ translated.thread = handle.thread ∧
            ∀ completed, handlePasses completed t translated ↔ handle.Own t ∨
              Complete s completed handle.thread.toNat (handle.packet + 1))
          [device, object] handles
  | .threadBarrier done => ∃ indices, packets[output.origin]? = some (.threadBarrier indices) ∧
      done.length = indices.length ∧
        ∀ i index v, indices[i]? = some index → done[i]? = some v → ∀ completed,
          (barrierPasses completed t i v ↔ i = t ∨ Complete s completed i index)

section

variable {packets : List InPacket} {s : State} {t : Nat}

theorem HandleTranslated.waits (hrecorded : ∀ i, Recorded (s i).packets (produced (s i)))
    {handle translated : Handle} (htranslated : HandleTranslated s t handle translated)
    (completed : Nat → Nat) : handlePasses completed t translated ↔ handle.Own t ∨
      Complete s completed handle.thread.toNat (handle.packet + 1) := by
  obtain ⟨-, hthread, hpacket⟩ := htranslated
  have hown : translated.Own t ↔ handle.Own t := by
    unfold Handle.Own
    rw [hthread]
  unfold handlePasses
  rw [hown, hthread]
  split at hpacket
  · case _ h => simp [h]
  · have hawaits := (hrecorded handle.thread.toNat).awaitsExactly hpacket
      (completed handle.thread.toNat)
    exact or_congr_right (Nat.lt_iff_add_one_le.trans hawaits)

theorem OutputSound.waitsForOutput (hrecorded : ∀ i, Recorded (s i).packets (produced (s i)))
    {output : Output} (hsound : OutputSound packets s t output) :
    WaitsForOutput packets s t output := by
  unfold OutputSound at hsound
  unfold WaitsForOutput
  cases hpacket : output.packet with
  | synthetic => trivial
  | data kind handles =>
      simp only [hpacket] at hsound ⊢
      obtain ⟨device, object, hinput, hhandles⟩ := hsound
      refine ⟨device, object, hinput, hhandles.imp fun handle translated htranslated => ?_⟩
      exact ⟨htranslated.1, htranslated.2.1, htranslated.waits hrecorded⟩
  | threadBarrier done =>
      simp only [hpacket] at hsound ⊢
      obtain ⟨indices, hinput, hlength, hdone⟩ := hsound
      refine ⟨indices, hinput, hlength, fun i index v hindex hv completed => ?_⟩
      obtain ⟨found, hfound, hmapped⟩ := hdone i v hv
      cases hindex.symm.trans hfound
      exact or_congr_right ((hrecorded i).awaitsExactly hmapped (completed i))

theorem Recorded.nondecreasing {packets origins : List Nat}
    (hrecorded : Recorded packets origins) : packets.Pairwise (· ≤ ·) := by
  rw [hrecorded.packets_eq, List.pairwise_map]
  refine List.pairwise_lt_range.imp fun hlt => ?_
  refine List.countP_mono_left fun origin _ hbelow => ?_
  simp only [decide_eq_true_eq] at hbelow ⊢
  omega

end

/-- **Rewriting keeps the dependencies.**  In every schedule of the threads, as long as every
API callback writes a packet: nothing aborts; the row of a thread starts with zero, does not
decrease, counts the packets that were written for the first packets of its input, and goes
beyond what the others can wait for; and every copied barrier, update and initialization of
the rewritten trace waits for exactly the packets that were written for those which the input
waits for. -/
theorem rewritten_dependencies (threadCount : Nat) (input : Nat → List InPacket)
    (hvalid : ValidTrace threadCount input) (moves : List Move) (s : State)
    (hwrites : Along (step threadCount input)
      (fun s next => callbackWrites input s next = true) (fun _ => {}) moves)
    (hexec : exec (step threadCount input) (fun _ => {}) moves = some s)
    (hcountable : Countable s) :
    (∀ t, (s t).pc ≠ .aborted) ∧
    (∀ t, (s t).packets[0]? = some 0 ∧ (s t).packets.Pairwise (· ≤ ·) ∧
      (∀ k v, (s t).packets[k]? = some v →
        v = (produced (s t)).countP fun origin => origin < k) ∧
      (s t).completed < (s t).packets.length ∧
      ((s t).pc = .finished → (s t).packets.length = (input t).length + 1)) ∧
    ∀ t, ∀ output ∈ (s t).output, WaitsForOutput (input t) s t output := by
  have hinv : ∀ t, ThreadInv (input t) s t (s t) := by
    have hrun : Countable s → ∀ t, ThreadInv (input t) s t (s t) := by
      refine exec_invariant (fun s next final hinv hwrites hstep hcountable =>
        step_inv hvalid hinv hwrites hstep hcountable) ?_ hwrites hexec
      exact fun _ t => threadInv_init (input t) _ t
    exact hrun hcountable
  have hrecorded : ∀ t, Recorded (s t).packets (produced (s t)) := fun t => (hinv t).recorded
  refine ⟨fun t hpc => ?_, fun t => ⟨?_, ?_, ?_, ?_, ?_⟩, fun t output houtput => ?_⟩
  · have hplace := (hinv t).place
    simp only [Place, hpc] at hplace
  · rw [(hrecorded t).getElem?_eq (hrecorded t).positive]
    simp
  · exact (hrecorded t).nondecreasing
  · exact fun k v hv => (hrecorded t).eq_countP hv
  · exact (hinv t).completed_lt
  · intro hpc
    have hplace := (hinv t).place
    simp only [Place, hpc] at hplace
    omega
  · exact ((hinv t).outputs output houtput).waitsForOutput hrecorded

/-- Two threads: a call and a barrier, and a call and an update of an object of the first
thread. -/
def twoThreads : Nat → List InPacket
  | 0 => [.apiCall [], .threadBarrier [1, 1]]
  | 1 => [.apiCall [], .data .update ⟨7, 0, 0⟩ ⟨8, -1, 0⟩]
  | _ => []

/-- The callbacks write two packets and three; the threads take turns. -/
def twoThreadsMoves : List Move :=
  [⟨0, 0⟩, ⟨1, 0⟩, ⟨0, 0⟩, ⟨1, 0⟩, ⟨0, 2⟩, ⟨1, 3⟩, ⟨0, 0⟩, ⟨1, 0⟩, ⟨0, 0⟩, ⟨1, 0⟩, ⟨0, 0⟩, ⟨1, 0⟩,
    ⟨0, 0⟩, ⟨1, 0⟩, ⟨0, 0⟩, ⟨1, 0⟩, ⟨0, 0⟩, ⟨1, 1⟩, ⟨0, 0⟩, ⟨1, 0⟩, ⟨0, 0⟩, ⟨1, 0⟩, ⟨0, 0⟩, ⟨1, 0⟩,
    ⟨0, 0⟩, ⟨1, 0⟩, ⟨0, 0⟩, ⟨1, 0⟩, ⟨0, 0⟩]

theorem twoThreads_valid : ValidTrace 2 twoThreads := by
  constructor
  · intro t
    match t with
    | 0 => decide
    | 1 => decide
    | t + 2 => simp [twoThreads]
  · intro t packet hpacket
    match t with
    | 0 => revert packet; decide
    | 1 => revert packet; decide
    | t + 2 => cases hpacket
  · intro t k indices hbarrier
    match t with
    | 0 =>
        match k with
        | 0 => simp [twoThreads] at hbarrier
        | 1 =>
            simp only [twoThreads, List.getElem?_cons_succ, List.getElem?_cons_zero,
              Option.some.injEq, InPacket.threadBarrier.injEq] at hbarrier
            subst hbarrier
            simp
        | k + 2 => simp [twoThreads] at hbarrier
    | 1 =>
        match k with
        | 0 => simp [twoThreads] at hbarrier
        | 1 => simp [twoThreads] at hbarrier
        | k + 2 => simp [twoThreads] at hbarrier
    | t + 2 => simp [twoThreads] at hbarrier

/-- There are no other threads. -/
theorem step_outside {threadCount : Nat} {input : Nat → List InPacket} {s final : State}
    {next : Move} (hstep : step threadCount input s next = some final) {i : Nat}
    (hi : threadCount ≤ i) : final i = s i := by
  unfold step at hstep
  split at hstep
  · obtain ⟨moved, -, rfl⟩ := Option.map_eq_some_iff.mp hstep
    exact Function.update_of_ne (by omega) _ _
  · cases hstep

theorem rewritten_dependencies_twoThreads :
    ∃ s, exec (step 2 twoThreads) (fun _ => {}) twoThreadsMoves = some s ∧
      (s 0).pc = .finished ∧ (s 1).pc = .finished ∧ (s 1).packets = [0, 3, 5] ∧
      WaitsForOutput (twoThreads 0) s 0 ⟨.threadBarrier [2, 3], 1⟩ ∧
      WaitsForOutput (twoThreads 1) s 1 ⟨.data .update [⟨7, 0, 1⟩, ⟨8, -1, 0⟩], 1⟩ := by
  obtain ⟨s, hexec, hfirst, hsecond, hrow, hbarrier, hupdate, hlengths⟩ : ∃ s,
      exec (step 2 twoThreads) (fun _ => {}) twoThreadsMoves = some s ∧
        (s 0).pc = .finished ∧ (s 1).pc = .finished ∧ (s 1).packets = [0, 3, 5] ∧
        ⟨.threadBarrier [2, 3], 1⟩ ∈ (s 0).output ∧
        ⟨.data .update [⟨7, 0, 1⟩, ⟨8, -1, 0⟩], 1⟩ ∈ (s 1).output ∧
        (s 0).output.length = 3 ∧ (s 1).output.length = 5 :=
    ⟨_, rfl, rfl, rfl, rfl, by decide, by decide, rfl, rfl⟩
  have hcountable : Countable s := by
    intro i
    match i with
    | 0 => omega
    | 1 => omega
    | i + 2 =>
        have hkeep : ∀ (state : State) (move : Move) (next : State), state (i + 2) = {} →
            step 2 twoThreads state move = some next → next (i + 2) = {} :=
          fun state move next hstate hstep => (step_outside hstep (by omega)).trans hstate
        have hidle := exec_invariant_of_step hkeep rfl hexec
        rw [hidle]
        decide
  obtain ⟨-, -, hwaits⟩ := rewritten_dependencies 2 twoThreads twoThreads_valid twoThreadsMoves s
    (by decide) hexec hcountable
  exact ⟨s, hexec, hfirst, hsecond, hrow, hwaits 0 _ hbarrier, hwaits 1 _ hupdate⟩

end PacketMapping
end Lavatube
