import Lavatube.FrameLimit
import Lavatube.PacketReader
import Lavatube.RandomAccess

/-!
# Printing packets out of order

`lava-print-fast` prints selected packets without reading the stream up to them: it
looks the packet up among the checkpoints that the writer has stored, walks from there
to the packet, and finds its frame by a binary search over the positions of the frame
boundaries.  The sequential reader in isolated mode walks through all packets and counts
the boundaries it passes.

* `Recorder` — the packet writer together with `new_frame`.
* `loadPacketCheckpoints`, `fetch` — the random access side.
* `IsolatedReader` — the sequential side.
* `Marked`, `Bounded` — what the checkpoints and the boundaries of a writer satisfy.
* `Follows` — where a sequential reader stands, however it is scheduled.
* `random_access_agrees_with_reading` — both sides meet the same packets in the same
  frames.
-/

namespace Lavatube
namespace PrintFast

open Container FileReader Transition PartitionPoint
open Packets (Frame framesBytes framesBytes_append draftOf PacketWriter Draft Writes)
open PacketReader (frameStart frameStart_succ drop_framesBytes header_bytes stepsTaken Delivers)

/-! ## The writer -/

/-- `framedata`. -/
structure FrameData where
  startPos : Nat
  packetIndex : Nat
  globalFrame : Nat
  localFrame : Nat
deriving DecidableEq, Repr

/-- A packet writer with the frames it has seen. -/
structure Recorder where
  packets : PacketWriter
  frames : List FrameData := []
  frame : Nat := 0
deriving DecidableEq, Repr

/-- What a capture thread does: packets, and frame boundaries between or inside them. -/
inductive Call where
  | packet (call : Packets.Call)
  | newFrame (globalFrame : Nat)
deriving DecidableEq, Repr

/-- One call; `new_frame` asserts that the global frame is not behind the local one. -/
def step (r : Recorder) : Call → Option Recorder
  | .packet call => (Packets.step r.packets call).map fun packets => { r with packets := packets }
  | .newFrame globalFrame =>
      if globalFrame ≥ r.frame then
        some { r with
          frames := r.frames ++
            [{ startPos := r.packets.writer.uncompressedBytes, packetIndex := r.packets.packet
               globalFrame := globalFrame, localFrame := r.frame }]
          frame := r.frame + 1 }
      else
        none

def Recorder.new (chunkSize : Nat) : Recorder := { packets := .new chunkSize }

/-- The packet calls of a run. -/
def packetCalls (calls : List Call) : List Packets.Call :=
  calls.filterMap fun call =>
    match call with
    | .packet call => some call
    | .newFrame _ => none

/-! ## Random access -/

/-- The checks of `load_packet_checkpoints` on the values of the frame file; `none` is an
abort. -/
def loadPacketCheckpoints (totalUncompressed : Nat) :
    List (Nat × Nat) → List (Nat × Nat) → Option (List (Nat × Nat))
  | loaded, [] => some loaded
  | loaded, (packet, position) :: rest =>
      -- `isUInt` and `isUInt64`
      if packet ≥ 2 ^ 32 ∨ position ≥ 2 ^ 64 then none
      else if position ≥ totalUncompressed then none
      else if loaded = [] ∧ (packet ≠ 0 ∨ position ≠ 0) then none
      else if loaded.getLast?.any fun previous => packet ≤ previous.1 ∨ position ≤ previous.2 then
        none
      else
        loadPacketCheckpoints totalUncompressed (loaded ++ [(packet, position)]) rest

/-- `seek_to_packet`: the reader at the checkpoint, and the packet that starts there. -/
def seekToPacket (reader : RandomAccess.Reader) (checkpoints : List (Nat × Nat)) (packet : Nat) :
    Option (RandomAccess.Reader × Nat) :=
  if checkpoints = [] then
    (RandomAccess.seek reader 0).map fun reader => (reader, 0)
  else
    let first := partitionPoint (fun middle => (checkpoints.getD middle (0, 0)).1 ≤ packet)
      checkpoints.length 0 checkpoints.length
    if first > 0 then
      let checkpoint := checkpoints.getD (first - 1) (0, 0)
      (RandomAccess.seek reader checkpoint.2).map fun reader => (reader, checkpoint.1)
    else
      none

/-- `load_packet`; the outer `none` is an abort and the inner one the result `false`.  Every
round reads a header, so that the first argument, which starts as the number of bytes left,
does not run out. -/
def loadPacket (codecs : Codecs) (target : Nat) :
    Nat → RandomAccess.Reader → Nat → Option (Option (Nat × List UInt8) × RandomAccess.Reader)
  | 0, reader, _ => some (none, reader)
  | rounds + 1, reader, current =>
      if current ≤ target ∧ reader.remaining > 0 then
        let position := reader.position
        if reader.remaining < 5 then none
        else
          match RandomAccess.readBytes codecs reader 1 with
          | none => none
          | some (reader, _) =>
              match RandomAccess.readBytes codecs reader 4 with
              | none => none
              | some (reader, word) =>
                  let size := LittleEndian.decode word
                  if size < 5 ∨ size > reader.totalUncompressed - position then none
                  else if current = target then
                    match RandomAccess.seek reader position with
                    | none => none
                    | some reader =>
                        match RandomAccess.readBytes codecs reader size with
                        | none => none
                        | some (reader, bytes) => some (some (position, bytes), reader)
                  else
                    match RandomAccess.seek reader (position + size) with
                    | none => none
                    | some reader => loadPacket codecs target rounds reader (current + 1)
      else
        some (none, reader)

/-- `seek_to_packet` followed by `load_packet`. -/
def fetch (codecs : Codecs) (checkpoints : List (Nat × Nat)) (reader : RandomAccess.Reader)
    (target : Nat) : Option (Option (Nat × List UInt8) × RandomAccess.Reader) :=
  match seekToPacket reader checkpoints target with
  | none => none
  | some (reader, current) => loadPacket codecs target reader.remaining reader current

/-- One packet after the other, in any order. -/
def fetchAll (codecs : Codecs) (checkpoints : List (Nat × Nat)) (reader : RandomAccess.Reader) :
    List Nat → Option (List (Option (Nat × List UInt8)))
  | [] => some []
  | target :: rest =>
      match fetch codecs checkpoints reader target with
      | none => none
      | some (result, reader) => (fetchAll codecs checkpoints reader rest).map (result :: ·)

/-! ## Frames -/

/-- `fast_frame_boundary` and `print_frame_boundary`. -/
structure FrameBoundary where
  position : Nat
  frame : Nat
deriving DecidableEq, Repr

/-- `load_frame_boundaries`, and the loop of the constructor of `lava_file_reader`. -/
def loadFrameBoundaries (frames : List FrameData) : List FrameBoundary :=
  frames.map fun data => ⟨data.startPos, data.globalFrame + 1⟩

/-- `packet_frame`. -/
def packetFrame (boundaries : List FrameBoundary) (position : Nat) : Nat :=
  let first := partitionPoint
    (fun middle => (boundaries.getD middle ⟨0, 0⟩).position ≤ position)
    boundaries.length 0 boundaries.length
  if first = 0 then 0 else (boundaries.getD (first - 1) ⟨0, 0⟩).frame

/-- The loop of `step` over the boundaries that have not been passed yet. -/
def passBoundaries (position : Nat) : List FrameBoundary → Nat → Nat → Nat × Nat
  | [], next, frame => (next, frame)
  | boundary :: rest, next, frame =>
      if boundary.position ≤ position then passBoundaries position rest (next + 1) boundary.frame
      else (next, frame)

/-- A sequential reader in isolated mode. -/
structure IsolatedReader where
  reader : State
  nextPrintFrameBoundary : Nat := 0
  isolatedPrintFrame : Nat := 0
  printPacketFrame : Nat := 0
deriving DecidableEq, Repr

/-- One step of either thread; where `step` opens a packet it counts the boundaries in
front of it. -/
def isolatedStep (codecs : Codecs) (config : Config) (boundaries : List FrameBoundary)
    (s : IsolatedReader) (label : Label) : Option IsolatedReader :=
  match FileReader.step codecs config s.reader label with
  | none => none
  | some next =>
      if s.reader.packetOpen = false ∧ next.packetOpen = true then
        let passed := passBoundaries next.packetStart (boundaries.drop s.nextPrintFrameBoundary)
          s.nextPrintFrameBoundary s.isolatedPrintFrame
        some { reader := next
               nextPrintFrameBoundary := passed.1
               isolatedPrintFrame := passed.2
               printPacketFrame := passed.2 }
      else
        some { s with reader := next }

/-- A reader in use: reads belong to an open packet, replay is not stopped, and `step` is
not called again after it has returned zero. -/
def printing (s : State) : Label → Bool
  | .call .step => !s.terminated
  | .call .completePacket | .call .setCheckpoint | .call .releaseCheckpoint => true
  | .call _ => s.packetOpen
  | .poll stop => !stop
  | .consume | .decompress | .storeDone => true

/-! ## What the writer stores -/

theorem frameStart_append {frames : List Frame} (more : List Frame) {k : Nat}
    (hk : k ≤ frames.length) : frameStart (frames ++ more) k = frameStart frames k := by
  unfold frameStart
  rw [List.take_append_of_le_length hk]

theorem frameStart_length (frames : List Frame) :
    frameStart frames frames.length = (framesBytes frames).length := by
  simp [frameStart]

/-- A later packet starts behind the start of an earlier one. -/
theorem frameStart_lt {frames : List Frame} {j k : Nat} (hjk : j < k) (hk : k ≤ frames.length) :
    frameStart frames j < frameStart frames k := by
  induction k with
  | zero => omega
  | succ k ih =>
      have hframe := List.getElem?_eq_getElem (show k < frames.length by omega)
      have hsucc := frameStart_succ hframe
      have hsize : 5 ≤ (frames[k]).size := Nat.le_add_right 5 _
      rcases Nat.lt_or_ge j k with hlt | hge
      · have := ih hlt (by omega)
        omega
      · obtain rfl : j = k := by omega
        omega

/-- Every checkpoint is the start of its packet, and the first one is that of the first
packet. -/
structure Marked (packets : List Frame) (checkpoints : List (Nat × Nat)) : Prop where
  starts : ∀ checkpoint ∈ checkpoints,
    checkpoint.1 < packets.length ∧ checkpoint.2 = frameStart packets checkpoint.1
  sorted : checkpoints.Pairwise fun earlier later => earlier.1 < later.1
  first : ∀ checkpoint ∈ checkpoints.head?, checkpoint = (0, 0)
  some_of_packets : packets ≠ [] → checkpoints ≠ []

/-- The boundaries are in the order of their positions. -/
structure Bounded (written : Nat) (frames : List FrameData) : Prop where
  sorted : frames.Pairwise fun earlier later => earlier.startPos ≤ later.startPos
  inside : ∀ data ∈ frames, data.startPos ≤ written

section Writer

variable {chunkSize : Nat} {draft : Draft} {p next : PacketWriter} {checkpoints : List (Nat × Nat)}

/-- Only the payload of the open packet has changed. -/
theorem Marked.last {finished : List Frame} {frame : Frame}
    (hmarked : Marked (finished ++ [frame]) checkpoints) (frame' : Frame) :
    Marked (finished ++ [frame']) checkpoints := by
  constructor
  · intro checkpoint hmem
    obtain ⟨hlt, hstart⟩ := hmarked.starts checkpoint hmem
    have hle : checkpoint.1 ≤ finished.length := by
      simp only [List.length_append, List.length_singleton] at hlt
      omega
    constructor
    · simpa using hlt
    · rw [hstart, frameStart_append _ hle, frameStart_append _ hle]
  · exact hmarked.sorted
  · exact hmarked.first
  · intro _
    exact hmarked.some_of_packets (by simp)

/-- A packet is begun without a checkpoint. -/
theorem Marked.snoc {packets : List Frame} (hmarked : Marked packets checkpoints)
    (hsome : checkpoints ≠ []) (frame : Frame) : Marked (packets ++ [frame]) checkpoints := by
  constructor
  · intro checkpoint hmem
    obtain ⟨hlt, hstart⟩ := hmarked.starts checkpoint hmem
    constructor
    · simp only [List.length_append, List.length_singleton]
      omega
    · rw [hstart, frameStart_append _ hlt.le]
  · exact hmarked.sorted
  · exact hmarked.first
  · exact fun _ => hsome

/-- A packet is begun with a checkpoint. -/
theorem Marked.checkpoint {packets : List Frame} (hmarked : Marked packets checkpoints)
    (frame : Frame) :
    Marked (packets ++ [frame])
      (checkpoints ++ [(packets.length, (framesBytes packets).length)]) := by
  constructor
  · intro checkpoint hmem
    cases List.mem_append.mp hmem with
    | inl hmem =>
        obtain ⟨hlt, hstart⟩ := hmarked.starts checkpoint hmem
        constructor
        · simp only [List.length_append, List.length_singleton]
          omega
        · rw [hstart, frameStart_append _ hlt.le]
    | inr hmem =>
        rw [List.mem_singleton.mp hmem]
        constructor
        · simp
        · rw [frameStart_append _ le_rfl, frameStart_length]
  · rw [List.pairwise_append]
    refine ⟨hmarked.sorted, List.pairwise_singleton _ _, fun earlier hmem later hlater => ?_⟩
    rw [List.mem_singleton.mp hlater]
    exact (hmarked.starts earlier hmem).1
  · intro checkpoint hmem
    cases checkpoints with
    | nil =>
        -- without a checkpoint no packet has been begun
        have hnil : packets = [] := by
          by_contra hpackets
          exact hmarked.some_of_packets hpackets rfl
        simp only [hnil, List.nil_append, List.head?_cons, Option.mem_def] at hmem
        cases hmem
        rfl
    | cons first rest => exact hmarked.first checkpoint hmem
  · intro _
    simp

theorem perform_checkpoints {op : FileWriter.Op} (hperform : Packets.perform p op = some next) :
    next.packetCheckpoints = p.packetCheckpoints := by
  obtain ⟨writer, handed, -, rfl⟩ := Packets.perform_eq_some_iff.mp hperform
  rfl

theorem endPacket_checkpoints (hend : Packets.endPacket p = some next) :
    next.packetCheckpoints = p.packetCheckpoints := by
  unfold Packets.endPacket at hend
  split at hend
  · simp only at hend
    split at hend
    · cases hend
    · split at hend
      · cases hend
      · case _ stored hstored =>
        split at hend
        · cases hend
        · case _ thawed hthawed =>
          cases hend
          exact (perform_checkpoints hthawed).trans (perform_checkpoints hstored)
  · cases hend
    rfl

theorem writePacketHeader_checkpoints {type : Packets.PacketType}
    (hheader : Packets.writePacketHeader p type = some next) :
    next.packetCheckpoints = p.packetCheckpoints := by
  unfold Packets.writePacketHeader at hheader
  split at hheader
  · cases hheader
  · case _ typed htyped =>
    split at hheader
    · cases hheader
    · case _ sized hsized =>
      cases hheader
      exact (perform_checkpoints hsized).trans (perform_checkpoints htyped)

/-- **The checkpoints of a writer**, call by call. -/
theorem step_marked {call : Packets.Call} (hwrites : Writes chunkSize draft p)
    (hmarked : Marked draft.close.finished p.packetCheckpoints)
    (hstep : Packets.step p call = some next) :
    Marked (draft.apply call).close.finished next.packetCheckpoints := by
  -- a call inside the open packet changes its payload
  have hpayload : ∀ change : Frame → Frame,
      next.packetCheckpoints = p.packetCheckpoints →
      Marked (Draft.close { draft with current := draft.current.map change }).finished
        next.packetCheckpoints := by
    intro change hsame
    rw [hsame]
    unfold Draft.close at hmarked ⊢
    cases hcurrent : draft.current with
    | none => simpa [hcurrent] using hmarked
    | some frame =>
        rw [hcurrent] at hmarked
        exact hmarked.last (change frame)
  cases call with
  | beginPacket type =>
      simp only [Packets.step, Packets.beginPacket] at hstep
      split at hstep
      · cases hstep
      · case _ ended hended =>
        obtain ⟨ended', hended', hclosed⟩ := hwrites.ends (hwrites.size_lt_of_ends hended)
        cases hended'.symm.trans hended
        have hcheckpoints := writePacketHeader_checkpoints hstep
        have hkept := endPacket_checkpoints hended
        have hposition : ended.writer.uncompressedBytes =
            (framesBytes draft.close.finished).length := by
          rw [hclosed.uncompressedBytes]
          simp [Draft.bytes, Draft.close]
        have happly : (draft.apply (.beginPacket type)).close.finished =
            draft.close.finished ++ [⟨type, []⟩] := rfl
        rw [happly, hcheckpoints]
        unfold Packets.noteCheckpoint
        simp only
        split
        · show Marked _ (ended.packetCheckpoints ++ [(ended.packet, _)])
          rw [hclosed.packet, hposition, hkept]
          exact hmarked.checkpoint _
        · case _ hnone =>
          rw [not_or] at hnone
          show Marked _ ended.packetCheckpoints
          rw [hkept] at hnone ⊢
          exact hmarked.snoc hnone.1 _
  | endPacket =>
      have hsame : (draft.apply .endPacket).close.finished = draft.close.finished := by
        simp [Draft.apply, Draft.close]
      rw [hsame, endPacket_checkpoints hstep]
      exact hmarked
  | write bytes =>
      simp only [Packets.step] at hstep
      split at hstep
      · exact hpayload _ (perform_checkpoints hstep)
      · cases hstep
  | writeLater bytes =>
      simp only [Packets.step] at hstep
      split at hstep
      · split at hstep
        · cases hstep
        · case _ performed hperformed =>
          cases hstep
          have hsame := perform_checkpoints hperformed
          exact hpayload _ hsame
      · cases hstep
  | store position bytes =>
      simp only [Packets.step] at hstep
      split at hstep
      · exact hpayload _ (perform_checkpoints hstep)
      · cases hstep

/-- A call does not shorten the stream. -/
theorem bytes_length_le (draft : Draft) (call : Packets.Call) :
    draft.bytes.length ≤ (draft.apply call).bytes.length := by
  have hclose : draft.bytes.length = (framesBytes draft.close.finished).length := by
    unfold Draft.bytes Draft.close
    cases draft.current with
    | none => simp
    | some frame => simp [framesBytes, Packets.Frame.bytes]
  have hpayload : ∀ change : Frame → Frame,
      (∀ frame, frame.payload.length ≤ (change frame).payload.length) →
      draft.bytes.length ≤
        (Draft.bytes { draft with current := draft.current.map change }).length := by
    intro change hgrows
    unfold Draft.bytes
    cases draft.current with
    | none => exact le_rfl
    | some frame =>
        have := hgrows frame
        simp only [Option.map_some, List.length_append, Packets.Frame.bytesWith_length,
          Packets.Frame.size]
        omega
  cases call with
  | beginPacket type =>
      rw [hclose]
      simp [Draft.apply, Draft.bytes]
  | endPacket =>
      rw [hclose]
      simp [Draft.apply, Draft.bytes, Draft.close]
  | write bytes => exact hpayload _ fun frame => by simp
  | writeLater bytes => exact hpayload _ fun frame => by simp
  | store position bytes =>
      apply hpayload
      intro frame
      simp only [Overwrite.overwrite, List.length_append, List.length_take, List.length_drop]
      omega

/-- What a recorder keeps. -/
structure Records (chunkSize : Nat) (draft : Draft) (r : Recorder) : Prop where
  writes : Writes chunkSize draft r.packets
  marked : Marked draft.close.finished r.packets.packetCheckpoints
  bounded : Bounded r.packets.writer.uncompressedBytes r.frames

theorem step_records {r next : Recorder} {calls : List Call} {call : Call}
    (hrecords : Records chunkSize (draftOf (packetCalls calls)) r)
    (hstep : step r call = some next) :
    Records chunkSize (draftOf (packetCalls (calls ++ [call]))) next := by
  cases call with
  | packet call =>
      obtain ⟨packets, hpackets, rfl⟩ := Option.map_eq_some_iff.mp hstep
      have hdraft : draftOf (packetCalls (calls ++ [.packet call])) =
          (draftOf (packetCalls calls)).apply call := by
        simp [packetCalls, draftOf]
      rw [hdraft]
      have hwrites := Packets.step_refines hrecords.writes hpackets
      constructor
      · exact hwrites
      · exact step_marked hrecords.writes hrecords.marked hpackets
      · have hgrows := bytes_length_le (draftOf (packetCalls calls)) call
        rw [← hrecords.writes.uncompressedBytes, ← hwrites.uncompressedBytes] at hgrows
        exact ⟨hrecords.bounded.sorted,
          fun data hdata => (hrecords.bounded.inside data hdata).trans hgrows⟩
  | newFrame globalFrame =>
      have hdraft : packetCalls (calls ++ [.newFrame globalFrame]) = packetCalls calls := by
        simp [packetCalls]
      rw [hdraft]
      simp only [step] at hstep
      split at hstep
      · cases hstep
        refine ⟨hrecords.writes, hrecords.marked, ?_, ?_⟩
        · rw [List.pairwise_append]
          refine ⟨hrecords.bounded.sorted, List.pairwise_singleton _ _,
            fun earlier hearlier later hlater => ?_⟩
          rw [List.mem_singleton.mp hlater]
          exact hrecords.bounded.inside earlier hearlier
        · intro data hdata
          cases List.mem_append.mp hdata with
          | inl hdata => exact hrecords.bounded.inside data hdata
          | inr hdata => rw [List.mem_singleton.mp hdata]
      · cases hstep

/-- **A recorder**, after any calls. -/
theorem exec_records {r : Recorder} {calls : List Call}
    (hexec : exec step (Recorder.new chunkSize) calls = some r) :
    Records chunkSize (draftOf (packetCalls calls)) r := by
  have hinit : Records chunkSize (draftOf (packetCalls [])) (Recorder.new chunkSize) := by
    refine ⟨?_, ?_, ?_⟩
    · have hnone : exec Packets.step (PacketWriter.new chunkSize) [] =
          some (PacketWriter.new chunkSize) := rfl
      exact Packets.exec_refines hnone
    · constructor <;> simp [PacketWriter.new, Recorder.new, packetCalls, draftOf, Draft.close]
    · constructor <;> simp [Recorder.new]
  have hkeeps : ∀ trace r call next, Records chunkSize (draftOf (packetCalls trace)) r → True →
      step r call = some next → Records chunkSize (draftOf (packetCalls (trace ++ [call]))) next :=
    fun trace r call next hrecords _ hstep => step_records hrecords hstep
  simpa using exec_trace_invariant hkeeps hinit (along_true step _ calls) hexec

end Writer

/-! ## Random access to the packets -/

section Random

variable {codecs : Codecs} {stored : List Stored} {frames : List Frame}
  {reader : RandomAccess.Reader} {checkpoints : List (Nat × Nat)}

/-- **The checkpoints are accepted**, behind any part of them. -/
theorem loadPacketCheckpoints_marked (hmarked : Marked frames checkpoints)
    (hcount : frames.length ≤ 2 ^ 32) (hsize : (framesBytes frames).length < 2 ^ 64)
    (loaded rest : List (Nat × Nat)) (hsplit : checkpoints = loaded ++ rest) :
    loadPacketCheckpoints (framesBytes frames).length loaded rest = some checkpoints := by
  induction rest generalizing loaded with
  | nil => simp [loadPacketCheckpoints, hsplit]
  | cons checkpoint rest ih =>
      obtain ⟨packet, position⟩ := checkpoint
      obtain ⟨hlt, hstart⟩ := hmarked.starts (packet, position) (by simp [hsplit])
      have hinside : position < (framesBytes frames).length := by
        rw [show position = frameStart frames packet from hstart, ← frameStart_length]
        exact frameStart_lt hlt le_rfl
      have hfirst : ¬ (loaded = [] ∧ (packet ≠ 0 ∨ position ≠ 0)) := by
        rintro ⟨rfl, hother⟩
        have hzero := hmarked.first (packet, position) (by simp [hsplit])
        rw [Prod.mk.injEq] at hzero
        omega
      have hincreasing : ¬ (loaded.getLast?.any (fun previous =>
          packet ≤ previous.1 ∨ position ≤ previous.2) = true) := by
        rw [Option.any_eq_true]
        rintro ⟨previous, hprevious, hbehind⟩
        have hmem := List.mem_of_getLast? hprevious
        have hsorted := hmarked.sorted
        rw [hsplit, List.pairwise_append] at hsorted
        have hless : previous.1 < packet := hsorted.2.2 previous hmem _ List.mem_cons_self
        have hbefore := (hmarked.starts previous (by simp [hsplit, hmem])).2
        have hpositions := frameStart_lt hless hlt.le
        simp only [decide_eq_true_eq] at hbehind hstart
        omega
      unfold loadPacketCheckpoints
      rw [if_neg (by omega), if_neg (by omega), if_neg hfirst, if_neg hincreasing]
      exact ih (loaded ++ [(packet, position)]) (by simp [hsplit])

/-- **The binary search over the checkpoints** finds a packet that is not behind the one
that is looked for. -/
theorem seekToPacket_spec (hserves : reader.Serves codecs stored)
    (hstream : storedBytes stored = framesBytes frames) (hmarked : Marked frames checkpoints)
    (hframes : frames ≠ []) (target : Nat) :
    ∃ next current, seekToPacket reader checkpoints target = some (next, current) ∧
      next.Serves codecs stored ∧ current ≤ target ∧ current ≤ frames.length ∧
      next.position = frameStart frames current := by
  have hsome := hmarked.some_of_packets hframes
  have hpositive : 0 < checkpoints.length := List.length_pos_iff.mpr hsome
  have hget : ∀ i, i < checkpoints.length → checkpoints.getD i (0, 0) ∈ checkpoints := by
    intro i hi
    rw [List.getD_eq_getElem?_getD, List.getElem?_eq_getElem hi, Option.getD_some]
    exact List.getElem_mem hi
  obtain ⟨-, hlast, hfront, hback⟩ := partitionPoint_spec
    (fun middle => decide ((checkpoints.getD middle (0, 0)).1 ≤ target))
    (Nat.le_refl (checkpoints.length - 0)) (Nat.zero_le _)
    (fun i j hij hj hbelow => by
      simp only [decide_eq_true_eq] at hbelow ⊢
      rcases Nat.lt_or_ge i j with hlt | hge
      · have hless := List.pairwise_iff_getElem.mp hmarked.sorted i j (by omega) hj hlt
        rw [List.getD_eq_getElem?_getD, List.getElem?_eq_getElem hj, Option.getD_some] at hbelow
        rw [List.getD_eq_getElem?_getD,
          List.getElem?_eq_getElem (show i < checkpoints.length by omega), Option.getD_some]
        omega
      · obtain rfl : i = j := by omega
        exact hbelow)
  unfold seekToPacket
  rw [if_neg hsome]
  simp only
  generalize partitionPoint _ _ _ _ = first at *
  -- the first checkpoint is that of packet zero
  have hfirst : 0 < first := by
    refine Nat.pos_of_ne_zero fun hzero => ?_
    have hnone := hback 0 (by omega) hpositive
    have hzero' := hmarked.first checkpoints[0] (by
      rw [List.head?_eq_getElem?, List.getElem?_eq_getElem hpositive]
      rfl)
    rw [List.getD_eq_getElem?_getD, List.getElem?_eq_getElem hpositive, Option.getD_some,
      hzero'] at hnone
    simp at hnone
  obtain ⟨hlt, hstart⟩ := hmarked.starts _ (hget (first - 1) (by omega))
  have hbelow := hfront (first - 1) (Nat.zero_le _) (by omega)
  have hinside : frameStart frames (checkpoints.getD (first - 1) (0, 0)).1 ≤
      (storedBytes stored).length := by
    rw [hstream, ← frameStart_length]
    exact (frameStart_lt hlt le_rfl).le
  rw [if_pos hfirst, RandomAccess.seek, if_neg (by rw [hserves.total, hstart]; omega)]
  refine ⟨_, _, rfl, hserves.moveTo _ (by rw [hstart]; exact hinside), ?_, hlt.le, hstart⟩
  simpa using hbelow

/-- A read inside the stream. -/
theorem readBytes_spec (hserves : reader.Serves codecs stored) {byteCount : Nat}
    (hroom : reader.position + byteCount ≤ (storedBytes stored).length) :
    ∃ next, RandomAccess.readBytes codecs reader byteCount =
        some (next, ((storedBytes stored).drop reader.position).take byteCount) ∧
      next.Serves codecs stored ∧ next.position = reader.position + byteCount := by
  obtain ⟨next, hcopy, hnext, hmoved⟩ := RandomAccess.copyBytes_spec hserves le_rfl hroom
  have htotal := hserves.total
  have hposition := hserves.position_le
  refine ⟨next, ?_, hnext, hmoved⟩
  unfold RandomAccess.readBytes RandomAccess.Reader.remaining
  rw [if_neg (by omega), hcopy]

/-- **The walk to a packet** from the start of any earlier one. -/
theorem loadPacket_spec (hserves : reader.Serves codecs stored)
    (hstream : storedBytes stored = framesBytes frames)
    (hsmall : ∀ frame ∈ frames, frame.size < 2 ^ 32) {target current rounds : Nat}
    (hcurrent : current ≤ target) (hinside : current ≤ frames.length)
    (hposition : reader.position = frameStart frames current)
    (hrounds : (framesBytes frames).length - frameStart frames current ≤ rounds) :
    ∃ next, loadPacket codecs target rounds reader current =
        some ((frames[target]?).map fun frame => (frameStart frames target, frame.bytes), next) ∧
      next.Serves codecs stored := by
  induction rounds generalizing reader current with
  | zero =>
      -- no byte is left, so that no packet is
      have hend : current = frames.length := by
        by_contra hne
        have hlt := frameStart_lt (show current < frames.length by omega) (le_refl _)
        rw [frameStart_length] at hlt
        omega
      rw [List.getElem?_eq_none (by omega)]
      exact ⟨reader, rfl, hserves⟩
  | succ rounds ih =>
      have htotal := hserves.total
      rw [hstream] at htotal
      unfold loadPacket RandomAccess.Reader.remaining
      by_cases hend : current = frames.length
      · rw [if_neg (by rw [htotal, hposition, hend, frameStart_length]; omega),
          List.getElem?_eq_none (by omega)]
        exact ⟨reader, rfl, hserves⟩
      · have hlt : current < frames.length := by omega
        obtain ⟨frame, hframe⟩ : ∃ frame, frames[current]? = some frame :=
          ⟨_, List.getElem?_eq_getElem hlt⟩
        have hnext := frameStart_succ hframe
        have hbound : frameStart frames (current + 1) ≤ (framesBytes frames).length := by
          rw [← frameStart_length]
          rcases Nat.lt_or_ge (current + 1) frames.length with hless | hge
          · exact (frameStart_lt hless le_rfl).le
          · rw [show current + 1 = frames.length by omega]
        have hsize : 5 ≤ frame.size := Nat.le_add_right 5 _
        obtain ⟨-, hword⟩ := header_bytes hframe
        rw [if_pos (by omega)]
        simp only
        rw [if_neg (by omega)]
        -- the header
        obtain ⟨typed, htyped, hserves₁, hposition₁⟩ :=
          readBytes_spec hserves (show reader.position + 1 ≤ (storedBytes stored).length by
            rw [hstream]; omega)
        obtain ⟨sized, hsized, hserves₂, hposition₂⟩ :=
          readBytes_spec hserves₁ (show typed.position + 4 ≤ (storedBytes stored).length by
            rw [hstream]; omega)
        rw [hstream, hposition₁, hposition, hword] at hsized
        have hdecode : LittleEndian.decode (LittleEndian.encode 4 frame.size) = frame.size :=
          LittleEndian.decode_encode (by
            have := hsmall frame (List.mem_of_getElem? hframe)
            omega)
        have htotal₂ : sized.totalUncompressed = (framesBytes frames).length := by
          rw [hserves₂.total, hstream]
        simp only [htyped, hsized, hdecode]
        rw [if_neg (by rw [htotal₂, hposition]; omega)]
        by_cases htarget : current = target
        · subst htarget
          have hmoved := hserves₂.moveTo reader.position (by rw [hstream]; omega)
          obtain ⟨final, hfinal, hserves₃, -⟩ :=
            readBytes_spec hmoved (show reader.position + frame.size ≤
              (storedBytes stored).length by rw [hstream]; omega)
          have hbytes : ((storedBytes stored).drop reader.position).take frame.size =
              frame.bytes := by
            rw [hstream, hposition, drop_framesBytes hframe, List.take_left']
            simp [Packets.Frame.bytes]
          rw [if_pos rfl, RandomAccess.seek, if_neg (by rw [htotal₂]; omega)]
          simp only [hfinal, hbytes, hframe, Option.map_some]
          exact ⟨final, by rw [hposition], hserves₃⟩
        · rw [if_neg htarget, RandomAccess.seek, if_neg (by rw [htotal₂]; omega)]
          have hmoved := hserves₂.moveTo (reader.position + frame.size) (by rw [hstream]; omega)
          exact ih hmoved (by omega) hlt (by simp only; omega) (by omega)

/-- **A packet by its number.** -/
theorem fetch_spec (hserves : reader.Serves codecs stored)
    (hstream : storedBytes stored = framesBytes frames) (hmarked : Marked frames checkpoints)
    (hframes : frames ≠ []) (hsmall : ∀ frame ∈ frames, frame.size < 2 ^ 32) (target : Nat) :
    ∃ next, fetch codecs checkpoints reader target =
        some ((frames[target]?).map fun frame => (frameStart frames target, frame.bytes), next) ∧
      next.Serves codecs stored := by
  obtain ⟨placed, current, hseek, hplaced, hcurrent, hinside, hposition⟩ :=
    seekToPacket_spec hserves hstream hmarked hframes target
  unfold fetch
  simp only [hseek]
  apply loadPacket_spec hplaced hstream hsmall hcurrent hinside hposition
  unfold RandomAccess.Reader.remaining
  rw [hplaced.total, hstream, hposition]

theorem fetchAll_spec (hserves : reader.Serves codecs stored)
    (hstream : storedBytes stored = framesBytes frames) (hmarked : Marked frames checkpoints)
    (hframes : frames ≠ []) (hsmall : ∀ frame ∈ frames, frame.size < 2 ^ 32)
    (targets : List Nat) :
    fetchAll codecs checkpoints reader targets = some (targets.map fun target =>
      (frames[target]?).map fun frame => (frameStart frames target, frame.bytes)) := by
  induction targets generalizing reader with
  | nil => rfl
  | cons target rest ih =>
      obtain ⟨next, hfetch, hnext⟩ := fetch_spec hserves hstream hmarked hframes hsmall target
      simp only [fetchAll, hfetch, ih hnext, Option.map_some, List.map_cons]

end Random

/-! ## The sequential reader -/

/-- The open packet is the one that the counter says. -/
def Met (frames : List Frame) (s : State) : Prop :=
  ∃ frame, frames[s.packet]? = some frame ∧ s.packetStart = frameStart frames s.packet ∧
    s.packetSize = frame.size ∧ s.packetEnd = frameStart frames s.packet + frame.size

/-- No packet is open.  The consumer may stand behind the write position, but it reads no
header there. -/
def Seeks (frames : List Frame) (steps : Nat) (s : State) : Prop :=
  match s.pc with
  | .idle =>
      s.packet ≤ frames.length ∧ s.readPosition = frameStart frames s.packet ∧
        (s.terminated = false → steps = s.packet)
  | .entered =>
      s.packet ≤ frames.length ∧ s.readPosition = frameStart frames s.packet ∧
        steps = s.packet
  | .packetType =>
      s.packet ≤ frames.length ∧ s.readPosition = frameStart frames s.packet ∧
        s.packetStart = frameStart frames s.packet ∧ steps = s.packet + 1
  | .packetSize _ =>
      s.packet < frames.length ∧ s.readPosition = frameStart frames s.packet + 1 ∧
        s.packetStart = frameStart frames s.packet ∧ steps = s.packet + 1 ∧
        s.readPosition ≤ s.writePosition
  | .aborted => True
  | _ => False

/-- Where the consumer stands after `steps` looks for a packet. -/
structure Follows (frames : List Frame) (steps : Nat) (s : State) : Prop where
  opened : s.packetOpen = true →
    FrameLimit.Pc.between s.pc = false ∧ Met frames s ∧ steps = s.packet + 1
  closed : s.packetOpen = false → Seeks frames steps s

section Sequential

variable {codecs : Codecs} {config : Config} {type : CompressionType} {limit : Nat}
  {frames : List Frame} {steps : Nat} {s next : State}

/-- The decompressor does not move the consumer. -/
theorem Follows.congr (hfollows : Follows frames steps s)
    (hplace : PacketReader.place next = PacketReader.place s)
    (hgrows : s.writePosition ≤ next.writePosition) : Follows frames steps next := by
  simp only [PacketReader.place, Prod.mk.injEq] at hplace
  obtain ⟨hopen, hpc, hpacket, htype, hsize, hstart, hend, hread, hterminated⟩ := hplace
  constructor
  · intro h
    have hopened := hfollows.opened (hopen ▸ h)
    unfold Met at hopened ⊢
    rw [hpc, hpacket, hstart, hsize, hend]
    exact hopened
  · intro h
    have hclosed := hfollows.closed (hopen ▸ h)
    unfold Seeks at hclosed ⊢
    rw [hpc, hpacket, hstart, hread, hterminated]
    cases hpc' : s.pc with
    | packetSize type =>
        simp only [hpc'] at hclosed ⊢
        obtain ⟨hlt, hposition, hpacketStart, hsteps, hinside⟩ := hclosed
        exact ⟨hlt, hposition, hpacketStart, hsteps, hinside.trans hgrows⟩
    | idle | entered | packetType => simpa only [hpc'] using hclosed
    | aborted => trivial
    | _ => simp only [hpc'] at hclosed

theorem Follows.abort (hfollows : Follows frames steps s) : Follows frames steps s.abort := by
  constructor
  · intro h
    exact ⟨rfl, (hfollows.opened h).2⟩
  · intro _
    trivial

/-- A packet that is completed is one of the stream. -/
theorem completePacket_follows (hfollows : Follows frames steps s) (hpc : s.pc = .idle) :
    completePacket s = s.abort ∨
      (completePacket s).pc = .idle ∧ (completePacket s).packetOpen = false ∧
      (completePacket s).packet ≤ frames.length ∧
      (completePacket s).readPosition = frameStart frames (completePacket s).packet ∧
      (s.terminated = false → steps = (completePacket s).packet) := by
  unfold completePacket
  by_cases hopen : s.packetOpen = true
  · obtain ⟨-, ⟨frame, hframe, -, -, hend⟩, hsteps⟩ := hfollows.opened hopen
    have hlt := (List.getElem?_eq_some_iff.mp hframe).1
    rw [if_pos hopen]
    split
    · exact Or.inl rfl
    · refine Or.inr ⟨hpc, rfl, hlt, ?_, fun _ => hsteps⟩
      simp only [hend, frameStart_succ hframe]
  · have hclosed := hfollows.closed (by simpa using hopen)
    simp only [Seeks, hpc] at hclosed
    rw [if_neg hopen]
    exact Or.inr ⟨hpc, by simpa using hopen, hclosed⟩

theorem start_follows {call : FileReader.Call} (hfollows : Follows frames steps s)
    (hpc : s.pc = .idle) (hprinting : printing s (.call call) = true) :
    Follows frames steps (start config s call) := by
  -- a read of the open packet
  have hread : ∀ pc, FrameLimit.Pc.between pc = false → s.packetOpen = true →
      Follows frames steps { s with pc := pc } := by
    intro pc hplace hopen
    refine ⟨fun _ => ⟨hplace, (hfollows.opened hopen).2⟩, fun hclosed => ?_⟩
    exact absurd hopen (by simpa using hclosed)
  cases call with
  | step =>
      have hrunning : s.terminated = false := by simpa [printing] using hprinting
      simp only [start]
      rcases completePacket_follows hfollows hpc with
        habort | ⟨hidle, hclosed, hle, hposition, hsteps⟩
      · rw [habort, if_pos (show s.abort.pc = .aborted from rfl)]
        exact hfollows.abort
      · rw [if_neg (by rw [hidle]; simp)]
        refine ⟨fun h => ?_, fun _ => ⟨hle, hposition, hsteps hrunning⟩⟩
        exact absurd h (by simp [hclosed])
  | completePacket =>
      simp only [start]
      rcases completePacket_follows hfollows hpc with
        habort | ⟨hidle, hclosed, hle, hposition, hsteps⟩
      · rw [habort]
        exact hfollows.abort
      · have hsame : (completePacket s).terminated = s.terminated := by
          unfold completePacket
          repeat' split
          all_goals rfl
        refine ⟨fun h => absurd h (by simp [hclosed]), fun _ => ?_⟩
        simp only [Seeks, hidle, hsame]
        exact ⟨hle, hposition, hsteps⟩
  | setCheckpoint => exact hfollows.congr rfl le_rfl
  | releaseCheckpoint =>
      simp only [start]
      rcases FrameLimit.releaseCheckpoint_cases config s with
        habort | ⟨freed, checkpoint, hreleased⟩
      · rw [habort]
        exact hfollows.abort
      · rw [hreleased]
        exact hfollows.congr rfl le_rfl
  | readValue width => exact hread _ rfl hprinting
  | readArray size => exact hread _ rfl hprinting
  | readPatch maxsize => exact hread _ rfl hprinting
  | readString => exact hread _ rfl hprinting

/-- Between two packets none is open. -/
theorem Follows.closed_of_between (hfollows : Follows frames steps s)
    (hplace : FrameLimit.Pc.between s.pc = true) : s.packetOpen = false := by
  by_contra hopen
  have hinside := (hfollows.opened (by simpa using hopen)).1
  rw [hplace] at hinside
  cases hinside

/-- All reads but those of a packet header are reads of the open packet. -/
theorem Follows.open_of_request (hfollows : Follows frames steps s) {size : Nat}
    (hrequest : s.pc.request = some size) (hplace : FrameLimit.Pc.between s.pc = false) :
    s.packetOpen = true := by
  by_contra hclosed
  have hseeks := hfollows.closed (by simpa using hclosed)
  unfold Seeks at hseeks
  cases hpc : s.pc with
  | idle | entered | aborted =>
      rw [hpc] at hrequest
      cases hrequest
  | packetType | packetSize =>
      rw [hpc] at hplace
      cases hplace
  | value | array | patchOffset | patchSize | patchBytes | stringLength =>
      rw [hpc] at hseeks
      exact hseeks

/-- A look for the next packet. -/
theorem poll_follows (hfollows : Follows frames steps s) (hpc : s.pc = .entered) (stop : Bool) :
    Follows frames (steps + 1) (poll config s stop) := by
  have hclosed : s.packetOpen = false := hfollows.closed_of_between (by rw [hpc]; rfl)
  have hseeks := hfollows.closed hclosed
  simp only [Seeks, hpc] at hseeks
  obtain ⟨hle, hposition, hsteps⟩ := hseeks
  unfold poll
  split
  · refine ⟨fun h => absurd h (by simp [hclosed]), fun _ => ⟨hle, hposition, fun h => ?_⟩⟩
    cases h
  · simp only
    rcases FrameLimit.releaseCheckpoint_cases config s with habort | ⟨freed, checkpoint, hreleased⟩
    · rw [habort, if_pos (show s.abort.pc = .aborted from rfl)]
      exact ⟨fun h => absurd h (by simp [State.abort, hclosed]), fun _ => trivial⟩
    · rw [hreleased, if_neg (by simp [hpc])]
      exact ⟨fun h => absurd h (by simp [hclosed]), fun _ =>
        ⟨hle, hposition, hposition, congrArg (· + 1) hsteps⟩⟩

/-- **The type of a packet has been read.**  Behind the write position it is zero, so that
the header of a packet is only read in front of it. -/
theorem packetType_follows (htotal : (framesBytes frames).length < 2 ^ 64)
    (hdelivers : Delivers codecs type limit (framesBytes frames) s)
    (hfollows : Follows frames steps s) (hpc : s.pc = .packetType)
    (hnonzero : (s.bytes 1).headD 0 ≠ 0) :
    Follows frames steps
      { FrameLimit.served s 1 with pc := .packetSize ((s.bytes 1).headD 0) } := by
  have hclosed := hfollows.closed_of_between (by rw [hpc]; rfl)
  have hseeks := hfollows.closed hclosed
  simp only [Seeks, hpc] at hseeks
  obtain ⟨hle, hposition, hstart, hsteps⟩ := hseeks
  have hwrite : s.writePosition ≤ (framesBytes frames).length := by
    obtain ⟨rest, -, hstream, -⟩ := hdelivers.rest
    rw [← hstream, List.length_append]
    exact Nat.le_add_right _ _
  have hbounded : s.writePosition < 2 ^ 64 := hwrite.trans_lt htotal
  have hinside : s.readPosition < s.writePosition := by
    by_contra hbehind
    exact hnonzero (FrameLimit.bytes_behind (by omega))
  have hlt : s.packet < frames.length := by
    refine Nat.lt_of_le_of_ne hle fun hend => ?_
    rw [hend, frameStart_length] at hposition
    omega
  refine ⟨fun h => absurd h (by simp [FrameLimit.served, hclosed]), fun _ => ?_⟩
  exact ⟨hlt, by simp [FrameLimit.served, hposition], hstart, hsteps, hinside⟩

/-- **The size of a packet has been read**: the next packet is open. -/
theorem packetSize_follows (hdelivers : Delivers codecs type limit (framesBytes frames) s)
    (hsmall : ∀ frame ∈ frames, frame.size < 2 ^ 32) (hfollows : Follows frames steps s)
    {packetType : UInt8} (hpc : s.pc = .packetSize packetType) (hspace : 4 ≤ s.available) :
    Follows frames steps { FrameLimit.served s 4 with
      packetSize := LittleEndian.decode (s.bytes 4)
      packetEnd := s.packetStart + LittleEndian.decode (s.bytes 4)
      packetType := packetType
      packetOpen := true
      pc := .idle } := by
  have hseeks := hfollows.closed (hfollows.closed_of_between (by rw [hpc]; rfl))
  simp only [Seeks, hpc] at hseeks
  obtain ⟨hlt, hposition, hstart, hsteps, hinside⟩ := hseeks
  have hroom : s.readPosition + 4 ≤ s.writePosition := by
    unfold State.available at hspace
    omega
  have hframe := List.getElem?_eq_getElem hlt
  have hfits := hsmall _ (List.mem_of_getElem? hframe)
  have hword : LittleEndian.decode (s.bytes 4) = (frames[s.packet]).size := by
    rw [hdelivers.bytes hroom, hposition, (header_bytes hframe).2]
    exact LittleEndian.decode_encode (by omega)
  rw [hword]
  refine ⟨fun _ => ⟨rfl, ⟨_, hframe, hstart, rfl, ?_⟩, hsteps⟩, fun h => by cases h⟩
  simp only [hstart, FrameLimit.served]

/-- A read that has got its bytes. -/
theorem served_follows (htotal : (framesBytes frames).length < 2 ^ 64)
    (hdelivers : Delivers codecs type limit (framesBytes frames) s)
    (hsmall : ∀ frame ∈ frames, frame.size < 2 ^ 32) (hfollows : Follows frames steps s)
    {size : Nat} (hrequest : s.pc.request = some size) (hspace : size ≤ s.available) :
    Follows frames steps (advance (FrameLimit.served s size) (s.bytes size)) := by
  have hserved : ∀ pc, FrameLimit.Pc.between pc = false → s.packetOpen = true →
      Follows frames steps { FrameLimit.served s size with pc := pc } := by
    intro pc hplace hopen
    refine ⟨fun _ => ⟨hplace, (hfollows.opened hopen).2⟩, fun hclosed => ?_⟩
    simp only [FrameLimit.served, hopen] at hclosed
    cases hclosed
  rcases FrameLimit.advance_cases (FrameLimit.served s size) (s.bytes size) hrequest with
    habort | ⟨htype, hnonzero, hadvance⟩ | ⟨packetType, hsized, -, hadvance⟩ |
      ⟨hplace, pc, hplace', hadvance⟩
  · rw [habort]
    by_cases hopen : s.packetOpen = true
    · exact hserved .aborted rfl hopen
    · exact ⟨fun h => absurd h hopen, fun _ => trivial⟩
  · replace htype : s.pc = .packetType := htype
    obtain rfl : size = 1 := by
      rw [htype] at hrequest
      cases hrequest
      rfl
    rw [hadvance]
    exact packetType_follows htotal hdelivers hfollows htype hnonzero
  · replace hsized : s.pc = .packetSize packetType := hsized
    obtain rfl : size = 4 := by
      rw [hsized] at hrequest
      cases hrequest
      rfl
    rw [hadvance]
    exact packetSize_follows hdelivers hsmall hfollows hsized hspace
  · rw [hadvance]
    exact hserved pc hplace' (hfollows.open_of_request hrequest hplace)

theorem consumed_follows {size : Nat} (htotal : (framesBytes frames).length < 2 ^ 64)
    (hdelivers : Delivers codecs type limit (framesBytes frames) s)
    (hsmall : ∀ frame ∈ frames, frame.size < 2 ^ 32) (hfollows : Follows frames steps s)
    (hrequest : s.pc.request = some size) (hconsumed : Consumed codecs config s size next) :
    Follows frames steps next := by
  cases hconsumed with
  | stalled | outside => exact hfollows.abort
  | served hspace => exact served_follows htotal hdelivers hsmall hfollows hrequest hspace
  | slept => exact hfollows.congr rfl le_rfl
  | decompressed _ _ _ hchunk =>
      exact hfollows.congr rfl (decompressChunk_writePosition hchunk).1

/-- What a run of the reader keeps, however its threads are scheduled. -/
structure RunInv (codecs : Codecs) (type : CompressionType) (limit : Nat) (frames : List Frame)
    (trace : List Label) (s : State) : Prop where
  delivers : Delivers codecs type limit (framesBytes frames) s
  follows : Follows frames (stepsTaken trace) s

/-- **One step of either thread.** -/
theorem step_runInv (hinverse : codecs.Inverse type limit)
    (htotal : (framesBytes frames).length < 2 ^ 64)
    (hsmall : ∀ frame ∈ frames, frame.size < 2 ^ 32) {trace : List Label} {label : Label}
    (hinv : RunInv codecs type limit frames trace s) (hprinting : printing s label = true)
    (hstep : FileReader.step codecs config s label = some next) :
    RunInv codecs type limit frames (trace ++ [label]) next := by
  obtain ⟨hdelivers, hfollows⟩ := hinv
  refine ⟨PacketReader.step_delivers hinverse hdelivers hstep, ?_⟩
  rw [PacketReader.stepsTaken_snoc]
  cases step_stepped hstep with
  | decompress _ _ _ hchunk => exact hfollows.congr rfl (decompressChunk_writePosition hchunk).1
  | storeDone => exact hfollows.congr rfl le_rfl
  | consume hrequest _ hconsumed =>
      exact consumed_follows htotal hdelivers hsmall hfollows hrequest hconsumed
  | call hpc => exact start_follows hfollows hpc hprinting
  | poll hpc => exact poll_follows hfollows hpc _

end Sequential

/-! ## The frame of a packet -/

/-- The frame behind so many boundaries. -/
def frameAfter (boundaries : List FrameBoundary) (passed : Nat) : Nat :=
  if passed = 0 then 0 else (boundaries.getD (passed - 1) ⟨0, 0⟩).frame

/-- The boundaries in front of `passed` are those up to a position. -/
structure Passed (boundaries : List FrameBoundary) (position passed : Nat) : Prop where
  le_length : passed ≤ boundaries.length
  front : ∀ i < passed, (boundaries.getD i ⟨0, 0⟩).position ≤ position
  back : ∀ i, passed ≤ i → i < boundaries.length →
    position < (boundaries.getD i ⟨0, 0⟩).position

section Frames

variable {boundaries : List FrameBoundary} {position : Nat}

theorem Passed.unique {passed other : Nat} (hpassed : Passed boundaries position passed)
    (hother : Passed boundaries position other) : passed = other := by
  rcases Nat.lt_trichotomy passed other with hlt | heq | hgt
  · have hfront := hother.front passed hlt
    have hback := hpassed.back passed le_rfl (hlt.trans_le hother.le_length)
    omega
  · exact heq
  · have hfront := hpassed.front other hgt
    have hback := hother.back other le_rfl (hgt.trans_le hpassed.le_length)
    omega

/-- Boundaries that are sorted by their positions. -/
theorem getD_position_mono
    (hsorted : boundaries.Pairwise fun earlier later => earlier.position ≤ later.position)
    {i j : Nat} (hij : i ≤ j) (hj : j < boundaries.length) :
    (boundaries.getD i ⟨0, 0⟩).position ≤ (boundaries.getD j ⟨0, 0⟩).position := by
  rcases Nat.lt_or_ge i j with hlt | hge
  · have hle := List.pairwise_iff_getElem.mp hsorted i j (by omega) hj hlt
    simpa [List.getD_eq_getElem?_getD, List.getElem?_eq_getElem hj,
      List.getElem?_eq_getElem (hlt.trans hj)] using hle
  · obtain rfl : i = j := by omega
    exact le_rfl

/-- **The binary search over the boundaries.** -/
theorem packetFrame_eq
    (hsorted : boundaries.Pairwise fun earlier later => earlier.position ≤ later.position)
    (position : Nat) :
    ∃ passed, Passed boundaries position passed ∧
      packetFrame boundaries position = frameAfter boundaries passed := by
  obtain ⟨-, hle, hfront, hback⟩ := partitionPoint_spec
    (fun middle => decide ((boundaries.getD middle ⟨0, 0⟩).position ≤ position))
    (Nat.le_refl (boundaries.length - 0)) (Nat.zero_le _)
    (fun i j hij hj hbelow => by
      simp only [decide_eq_true_eq] at hbelow ⊢
      exact (getD_position_mono hsorted hij hj).trans hbelow)
  refine ⟨_, ⟨hle, fun i hi => ?_, fun i hi hlt => ?_⟩, rfl⟩
  · simpa using hfront i (Nat.zero_le _) hi
  · simpa using hback i hi hlt

/-- **The incremental count** from any boundary that has been passed before. -/
theorem passBoundaries_spec
    (hsorted : boundaries.Pairwise fun earlier later => earlier.position ≤ later.position)
    {next : Nat} (hle : next ≤ boundaries.length)
    (hfront : ∀ i < next, (boundaries.getD i ⟨0, 0⟩).position ≤ position) :
    ∃ passed, Passed boundaries position passed ∧
      passBoundaries position (boundaries.drop next) next (frameAfter boundaries next) =
        (passed, frameAfter boundaries passed) := by
  -- on the boundaries that are left
  induction hleft : boundaries.length - next generalizing next with
  | zero =>
      have hend : next = boundaries.length := by omega
      refine ⟨next, ⟨hle, hfront, fun i hi hlt => by omega⟩, ?_⟩
      rw [hend, List.drop_length]
      rfl
  | succ left ih =>
      have hlt : next < boundaries.length := by omega
      have hget : boundaries.getD next ⟨0, 0⟩ = boundaries[next] := by
        simp [List.getD_eq_getElem?_getD, List.getElem?_eq_getElem hlt]
      rw [List.drop_eq_getElem_cons hlt, ← hget]
      simp only [passBoundaries]
      split
      · case _ hpast =>
          apply ih hlt
          · intro i hi
            rcases Nat.lt_or_ge i next with hless | hge
            · exact hfront i hless
            · obtain rfl : i = next := by omega
              exact hpast
          · omega
      · case _ hahead =>
          refine ⟨next, ⟨hle, hfront, fun i hi hinside => ?_⟩, rfl⟩
          have := getD_position_mono hsorted hi hinside
          omega

end Frames

/-! ## The sequential reader in isolated mode -/

/-- What a reader in isolated mode keeps: the boundaries that it has passed are in front of
its packet. -/
structure IsolatedInv (codecs : Codecs) (type : CompressionType) (limit : Nat)
    (frames : List Frame) (boundaries : List FrameBoundary) (trace : List Label)
    (s : IsolatedReader) : Prop where
  run : RunInv codecs type limit frames trace s.reader
  le_length : s.nextPrintFrameBoundary ≤ boundaries.length
  front : ∀ i < s.nextPrintFrameBoundary,
    (boundaries.getD i ⟨0, 0⟩).position ≤ frameStart frames s.reader.packet
  frame : s.isolatedPrintFrame = frameAfter boundaries s.nextPrintFrameBoundary
  print : s.reader.packetOpen = true →
    s.printPacketFrame = packetFrame boundaries s.reader.packetStart

section Isolated

variable {codecs : Codecs} {config : Config} {type : CompressionType} {limit : Nat}
  {frames : List Frame} {boundaries : List FrameBoundary}

theorem frameStart_mono {j k : Nat} (hjk : j ≤ k) :
    frameStart frames j ≤ frameStart frames k := by
  unfold frameStart
  rw [← Nat.add_sub_of_le hjk, List.take_add, framesBytes_append, List.length_append]
  exact Nat.le_add_right _ _

/-- The packet counter never goes back, and stays while a packet is open. -/
def Proceeds (s next : State) : Prop :=
  s.packet ≤ next.packet ∧
    (s.packetOpen = true → next.packetOpen = true → next.packet = s.packet)

theorem proceeds_of_packet {s next : State} (hpacket : next.packet = s.packet) :
    Proceeds s next :=
  ⟨hpacket.ge, fun _ _ => hpacket⟩

theorem completePacket_proceeds (s : State) : Proceeds s (completePacket s) := by
  unfold completePacket
  split
  · split
    · exact proceeds_of_packet rfl
    · refine ⟨Nat.le_succ _, fun _ hopen => ?_⟩
      cases hopen
  · exact proceeds_of_packet rfl

theorem releaseCheckpoint_packet (config : Config) (s : State) :
    (releaseCheckpoint config s).packet = s.packet := by
  rcases FrameLimit.releaseCheckpoint_cases config s with habort | ⟨freed, checkpoint, hreleased⟩
  · rw [habort]
    rfl
  · rw [hreleased]

theorem advance_packet (s : State) (bytes : List UInt8) :
    (advance s bytes).packet = s.packet := by
  cases hpc : s.pc <;> simp only [advance, hpc]
  all_goals repeat' split
  all_goals rfl

theorem step_proceeds {s next : State} {label : Label}
    (hstep : FileReader.step codecs config s label = some next) : Proceeds s next := by
  cases step_stepped hstep with
  | decompress | storeDone => exact proceeds_of_packet rfl
  | consume _ _ hconsumed =>
      cases hconsumed with
      | stalled | outside | slept | decompressed => exact proceeds_of_packet rfl
      | served => exact proceeds_of_packet (advance_packet _ _)
  | @call call _ =>
      cases call with
      | step =>
          have hcompleted := completePacket_proceeds s
          simp only [start]
          split
          · exact hcompleted
          · exact hcompleted
      | completePacket => exact completePacket_proceeds s
      | releaseCheckpoint => exact proceeds_of_packet (releaseCheckpoint_packet config s)
      | _ => exact proceeds_of_packet rfl
  | poll =>
      unfold poll
      split
      · exact proceeds_of_packet rfl
      · simp only
        split
        · exact proceeds_of_packet (releaseCheckpoint_packet config s)
        · exact proceeds_of_packet (releaseCheckpoint_packet config s)

/-- **One step in isolated mode**: a packet that is opened is given the frame that the
binary search finds. -/
theorem isolatedStep_inv (hinverse : codecs.Inverse type limit)
    (htotal : (framesBytes frames).length < 2 ^ 64)
    (hsmall : ∀ frame ∈ frames, frame.size < 2 ^ 32)
    (hsorted : boundaries.Pairwise fun earlier later => earlier.position ≤ later.position)
    {trace : List Label} {label : Label} {s next : IsolatedReader}
    (hinv : IsolatedInv codecs type limit frames boundaries trace s)
    (hprinting : printing s.reader label = true)
    (hstep : isolatedStep codecs config boundaries s label = some next) :
    IsolatedInv codecs type limit frames boundaries (trace ++ [label]) next := by
  unfold isolatedStep at hstep
  split at hstep
  · cases hstep
  · case _ reader hreader =>
      have hrun := step_runInv hinverse htotal hsmall hinv.run hprinting hreader
      obtain ⟨hgrows, hsame⟩ := step_proceeds hreader
      have hfront : ∀ i < s.nextPrintFrameBoundary,
          (boundaries.getD i ⟨0, 0⟩).position ≤ frameStart frames reader.packet :=
        fun i hi => (hinv.front i hi).trans (frameStart_mono hgrows)
      split at hstep
      · case _ hopens =>
          cases hstep
          obtain ⟨-, ⟨frame, -, hstart, -⟩, -⟩ := hrun.follows.opened hopens.2
          rw [← hstart] at hfront
          obtain ⟨passed, hpassed, hcount⟩ := passBoundaries_spec hsorted hinv.le_length hfront
          obtain ⟨found, hfound, hframe⟩ := packetFrame_eq hsorted reader.packetStart
          have hagree := hpassed.unique hfound
          rw [← hinv.frame] at hcount
          simp only [hcount]
          refine ⟨hrun, hpassed.le_length, ?_, rfl, fun _ => ?_⟩
          · simpa only [hstart] using hpassed.front
          · rw [hframe, hagree]
      · case _ hstays =>
          cases hstep
          refine ⟨hrun, hinv.le_length, hfront, hinv.frame, fun hopen => ?_⟩
          -- the packet was open before the step
          have hbefore : s.reader.packetOpen = true := by
            by_contra hclosed
            exact hstays ⟨by simpa using hclosed, hopen⟩
          obtain ⟨-, ⟨-, -, hold, -⟩, -⟩ := hinv.run.follows.opened hbefore
          obtain ⟨-, ⟨-, -, hnew, -⟩, -⟩ := hrun.follows.opened hopen
          rw [hsame hbefore hopen] at hnew
          rw [hnew, ← hold]
          exact hinv.print hbefore

end Isolated

/-- **Random access agrees with reading.**  For every run of a packet writer with frame
boundaries anywhere in it, and the file that it leaves: the stored checkpoints are accepted
and are the starts of their packets; packets that are looked up in any order are those of
the run, with their positions; and a sequential reader in isolated mode, however its threads
are scheduled, meets at its `p`-th step the `p`-th packet at the same position, and counts
the frame that the binary search finds. -/
theorem random_access_agrees_with_reading (codecs : Codecs) (type : CompressionType)
    (limit : Nat) (hinverse : codecs.Inverse type limit) (chunkSize : Nat)
    (hchunkSize : chunkSize ≤ limit) (calls : List Call) (r : Recorder)
    (hcalls : exec step (Recorder.new chunkSize) calls = some r)
    (hblocks : ∀ op ∈ r.packets.ops, op.size ≤ limit)
    (hended : r.packets.packetOpen = false) (hwritten : 0 < r.packets.packet)
    (hcount : r.packets.packet ≤ 2 ^ 32) (file : List UInt8)
    (hwrote : Wrote codecs type chunkSize r.packets.ops file) (hfile : file.length < 2 ^ 64)
    (hsize : r.packets.writer.uncompressedBytes < 2 ^ 63) :
    ∃ source reader, RandomAccess.initializeReader file = some source ∧
      Container.init file r.packets.writer.uncompressedBytes
        r.packets.writer.uncompressedBytes = some reader ∧
      r.packets.packet = (draftOf (packetCalls calls)).finished.length ∧
      loadPacketCheckpoints source.totalUncompressed [] r.packets.packetCheckpoints =
        some r.packets.packetCheckpoints ∧
      (∀ checkpoint ∈ r.packets.packetCheckpoints, checkpoint.1 < r.packets.packet ∧
        checkpoint.2 = frameStart (draftOf (packetCalls calls)).finished checkpoint.1) ∧
      (∀ targets, fetchAll codecs r.packets.packetCheckpoints source targets =
        some (targets.map fun target =>
          ((draftOf (packetCalls calls)).finished[target]?).map fun frame =>
            (frameStart (draftOf (packetCalls calls)).finished target, frame.bytes))) ∧
      ∀ (config : Config) (preloadActive : Bool) (labels : List Label) (s : IsolatedReader),
        Along (isolatedStep codecs config (loadFrameBoundaries r.frames))
          (fun s label => printing s.reader label = true)
          { reader := State.init reader preloadActive } labels →
        exec (isolatedStep codecs config (loadFrameBoundaries r.frames))
          { reader := State.init reader preloadActive } labels = some s →
        s.reader.packetOpen = true →
          stepsTaken labels = s.reader.packet + 1 ∧
          s.printPacketFrame =
            packetFrame (loadFrameBoundaries r.frames) s.reader.packetStart ∧
          ∃ frame, (draftOf (packetCalls calls)).finished[s.reader.packet]? = some frame ∧
            s.reader.packetStart =
              frameStart (draftOf (packetCalls calls)).finished s.reader.packet ∧
            s.reader.packetSize = frame.size ∧
            (s.reader.file.output.drop s.reader.packetStart).take s.reader.packetSize <+:
              frame.bytes := by
  obtain ⟨hwrites, hmarked, hbounded⟩ := exec_records hcalls
  -- all packets are ended, so that the stream is that of the finished ones
  have hnone : (draftOf (packetCalls calls)).current = none := by
    rw [hwrites.packetOpen] at hended
    simpa using hended
  rw [Packets.Draft.close_of_none hnone] at hmarked
  have hpacket := hwrites.packet
  have hbytesLength := hwrites.uncompressedBytes
  have hsmall := hwrites.small
  have hstream : Pipeline.streamOf r.packets.ops =
      framesBytes (draftOf (packetCalls calls)).finished := by
    rw [hwrites.stream]
    simp [Packets.Draft.bytes, hnone]
  have hlength : (draftOf (packetCalls calls)).bytes =
      framesBytes (draftOf (packetCalls calls)).finished := by
    simp [Packets.Draft.bytes, hnone]
  rw [hlength] at hbytesLength
  generalize (draftOf (packetCalls calls)).finished = frames at *
  obtain ⟨stored, rfl, hbytes, hlimit⟩ := hwrote.stored hchunkSize hblocks
  rw [hstream] at hbytes
  rw [hbytesLength] at hsize ⊢
  have hframes : frames ≠ [] := by
    rintro rfl
    exact absurd hpacket (by simp; omega)
  have hstored : stored ≠ [] := by
    rintro rfl
    have hpositive := frameStart_lt (List.length_pos_iff.mpr hframes) le_rfl
    rw [frameStart_length, ← hbytes] at hpositive
    simp [storedBytes] at hpositive
  obtain ⟨source, hopen, hserves, -⟩ := RandomAccess.initializeReader_serves hinverse hstored
    hlimit (by rw [hbytes]; omega)
  obtain ⟨reader, hinit, -⟩ := init_stored codecs type hstored hfile (framesBytes frames).length
  rw [hbytes] at hinit
  refine ⟨source, reader, hopen, hinit, hpacket, ?_, ?_, ?_, ?_⟩
  · rw [hserves.total, hbytes]
    exact loadPacketCheckpoints_marked hmarked (by omega) (by omega) [] _ rfl
  · intro checkpoint hmem
    rw [hpacket]
    exact hmarked.starts checkpoint hmem
  · intro targets
    exact fetchAll_spec hserves hbytes hmarked hframes hsmall targets
  · intro config preloadActive labels s halong hrun hpacketOpen
    have hsorted : (loadFrameBoundaries r.frames).Pairwise
        fun earlier later => earlier.position ≤ later.position := by
      unfold loadFrameBoundaries
      rw [List.pairwise_map]
      exact hbounded.sorted
    have hstart := PacketReader.readerInv_init hstored hbytes hlimit hfile hinit preloadActive
    have hinv : IsolatedInv codecs type limit frames (loadFrameBoundaries r.frames) ([] ++ labels)
        s := by
      refine exec_trace_invariant (fun trace s label next hinv hprinting hstep =>
        isolatedStep_inv hinverse (by omega) hsmall hsorted hinv hprinting hstep) ?_ halong hrun
      have hfollows : Follows frames (stepsTaken []) (State.init reader preloadActive) := by
        refine ⟨fun hopened => ?_, fun _ => ⟨Nat.zero_le _, rfl, fun _ => rfl⟩⟩
        cases hopened
      refine ⟨⟨hstart.delivers, hfollows⟩, Nat.zero_le _,
        (fun i hi => absurd hi (Nat.not_lt_zero i)), rfl, fun hopened => ?_⟩
      cases hopened
    rw [List.nil_append] at hinv
    obtain ⟨-, ⟨frame, hframe, hposition, hword, -⟩, hsteps⟩ := hinv.run.follows.opened hpacketOpen
    refine ⟨hsteps, hinv.print hpacketOpen, frame, hframe, hposition, hword, ?_⟩
    -- what has been decompressed of the packet
    obtain ⟨rest, -, hdelivered, -⟩ := hinv.run.delivers.rest
    have hwhole : ((framesBytes frames).drop s.reader.packetStart).take s.reader.packetSize =
        frame.bytes := by
      rw [hposition, hword, drop_framesBytes hframe, List.take_left']
      simp [Packets.Frame.bytes]
    rw [← hwhole, ← hdelivered]
    exact (List.IsPrefix.drop (List.prefix_append _ _) _).take _

/-- The packets of `twoPackets`, with a frame boundary in front of the first one and another
one inside of it. -/
def twoFrames : List Call :=
  [.newFrame 4, .packet (.beginPacket .vulkanApiCall), .packet (.write [1, 2, 3, 4]),
    .newFrame 5, .packet (.beginPacket .threadBarrier), .packet (.write [0]),
    .packet .endPacket]

theorem random_access_agrees_with_reading_twoFrames :
    ∃ r source s, exec step (Recorder.new 5) twoFrames = some r ∧
      RandomAccess.initializeReader PacketReader.twoPacketsFile = some source ∧
      fetchAll literalCodecs r.packets.packetCheckpoints source [1, 2, 0] =
        some [some (9, [3, 6, 0, 0, 0, 0]), none, some (0, [2, 9, 0, 0, 0, 1, 2, 3, 4])] ∧
      exec (isolatedStep literalCodecs {} (loadFrameBoundaries r.frames))
        { reader := State.init PacketReader.twoPacketsReader true }
        (PacketReader.twoPacketsRun.take 16) = some s ∧
      s.reader.packet = 1 ∧ s.reader.packetStart = 9 ∧ s.printPacketFrame = 6 := by
  obtain ⟨r, hcalls, hops, hended, hpacket, hsize, hframes⟩ : ∃ r,
      exec step (Recorder.new 5) twoFrames = some r ∧
        r.packets.ops = PacketReader.twoPacketsOps ∧ r.packets.packetOpen = false ∧
        r.packets.packet = 2 ∧ r.packets.writer.uncompressedBytes = 15 ∧
        r.frames = [⟨0, 0, 4, 0⟩, ⟨9, 0, 5, 1⟩] := ⟨_, rfl, rfl, rfl, rfl, rfl, rfl⟩
  obtain ⟨source, reader, hopen, hinit, -, -, -, hfetch, hsequential⟩ :=
    random_access_agrees_with_reading literalCodecs .lz4 12 literalCodecs_inverse 5 (by decide)
      twoFrames r hcalls (by rw [hops]; decide) hended (by omega) (by omega)
      PacketReader.twoPacketsFile (hops ▸ PacketReader.twoPacketsFile_wrote) (by decide)
      (by omega)
  have hreader : reader = PacketReader.twoPacketsReader := by
    have hopened : Container.init PacketReader.twoPacketsFile 15 15 =
        some PacketReader.twoPacketsReader := by decide
    rw [hsize] at hinit
    exact Option.some.inj (hinit.symm.trans hopened)
  subst hreader
  obtain ⟨s, hrun, hpacketOpen, hmet⟩ : ∃ s,
      exec (isolatedStep literalCodecs {} (loadFrameBoundaries [⟨0, 0, 4, 0⟩, ⟨9, 0, 5, 1⟩]))
        { reader := State.init PacketReader.twoPacketsReader true }
        (PacketReader.twoPacketsRun.take 16) = some s ∧
      s.reader.packetOpen = true ∧ s.reader.packet = 1 := ⟨_, rfl, rfl, rfl⟩
  rw [hframes] at hsequential
  obtain ⟨-, hframe, frame, -, hstart, -⟩ :=
    hsequential {} true (PacketReader.twoPacketsRun.take 16) s (by decide) hrun hpacketOpen
  have hnine : s.reader.packetStart = 9 := by
    rw [hstart, hmet]
    rfl
  refine ⟨r, source, s, hcalls, hopen, ?_, by rw [hframes]; exact hrun, hmet, hnine, ?_⟩
  · rw [hfetch]
    rfl
  · rw [hframe, hnine]
    rfl


end PrintFast
end Lavatube
