import Lavatube.FileReader
import Lavatube.Packets

/-!
# Reading packets

`lava_file_reader::step` on a stream of packets, with handlers that read any part
of their packet and leave the rest to `complete_packet`.

* `Delivers` — the decompressor appends the stream, chunk by chunk.
* `Reading` — the consumer stands at a packet of the stream.
* `packet_framing_round_trip` — the packets that are written are the packets that
  are read.
-/

namespace Lavatube
namespace PacketReader

open Container FileReader Transition
open Packets (Frame framesBytes framesBytes_append draftOf PacketWriter)

/-- A handler reads only while its packet is open, and only from it; patches fit
the buffer they are for.  Replay is not stopped, and `step` is not called again
after it has returned zero. -/
def handlerStays (s : State) : Label → Bool
  | .call .step => !s.terminated
  | .call .completePacket | .call .setCheckpoint | .call .releaseCheckpoint => true
  | .call _ => s.packetOpen
  | .poll stop => !stop
  | .consume =>
      match s.pc with
      | .value size | .array size => s.readPosition + size ≤ s.packetEnd
      | .patchOffset maxsize position =>
          s.readPosition + 4 ≤ s.packetEnd ∧
            (maxsize = 0 ∨ position + LittleEndian.decode (s.bytes 4) ≤ maxsize)
      | .patchSize _ _ _ => s.readPosition + 4 ≤ s.packetEnd
      | .patchBytes maxsize position _ size =>
          s.readPosition + size ≤ s.packetEnd ∧ (maxsize = 0 ∨ position + size ≤ maxsize)
      | .stringLength => s.readPosition + 2 ≤ s.packetEnd
      | _ => true
  | .decompress | .storeDone => true

/-- The consumer does not run into the decompressor: no packet is skipped before
it has been decompressed, a read that has to wait asks for less than what is left
of the stream behind the write position, and the flag behind the last chunk has
been stored when `step` looks at it. -/
def keepsClear (s : State) : Label → Bool
  | .call .step | .call .completePacket => !s.packetOpen || s.packetEnd ≤ s.writePosition
  | .consume =>
      match s.pc.request with
      | some size =>
          size ≤ s.available || s.writePosition + size < s.file.totalUncompressed
      | none => true
  | .poll _ => s.readPosition < s.file.totalUncompressed || s.doneDecompressing
  | _ => true

/-- The number of times `step` has looked for a packet. -/
def stepsTaken (labels : List Label) : Nat :=
  labels.countP fun label =>
    match label with
    | .poll _ => true
    | _ => false

/-! ## The decompressor -/

/-- The decompressor has appended a part of the stream and stands in front of the
rest; a flag says that nothing is left. -/
structure Delivers (codecs : Codecs) (type : CompressionType) (limit : Nat)
    (stream : List UInt8) (s : State) : Prop where
  rest : ∃ rest : List Stored, s.file.Before codecs type rest ∧
    s.file.output ++ storedBytes rest = stream ∧
    (∀ chunk ∈ rest, chunk.chunk.length ≤ limit) ∧
    (s.doneDecompressing = true ∨ s.file.doneDecompressing = true → rest = [])
  wanted : s.file.uncompressedWanted = stream.length
  total : s.file.totalUncompressed = stream.length

section

variable {codecs : Codecs} {type : CompressionType} {limit : Nat} {stream : List UInt8}
variable {s next : State}

theorem storedBytes_eq_nil_iff {stored : List Stored} : storedBytes stored = [] ↔ stored = [] := by
  cases stored with
  | nil => simp [storedBytes]
  | cons first rest => simp [storedBytes, first.chunk_ne_nil]

/-- One more chunk. -/
theorem Delivers.decompressed (hinverse : codecs.Inverse type limit)
    (hdelivers : Delivers codecs type limit stream s) {file : Container.Reader}
    (hchunk : decompressChunk codecs s.file = some file) (hfile : next.file = file)
    (hdone : next.doneDecompressing = true →
      s.doneDecompressing = true ∨ file.doneDecompressing = true) :
    Delivers codecs type limit stream next := by
  obtain ⟨rest, hbefore, hstream, hlimit, hflag⟩ := hdelivers.rest
  obtain ⟨-, htotal, hwanted, hflags⟩ := decompressChunk_members hchunk
  cases rest with
  | nil =>
      -- nothing is left, so that there is no chunk to decompress
      have hempty : s.file.input = [] := by simpa using hbefore.input
      unfold decompressChunk at hchunk
      rw [if_neg (by simp [hempty])] at hchunk
      cases hchunk
  | cons first more =>
      obtain ⟨after, hafter, hnext, houtput⟩ :=
        hbefore.next hinverse (hlimit first (List.mem_cons_self ..))
      cases hafter.symm.trans hchunk
      have hbytes : file.output ++ storedBytes more = stream := by
        rw [houtput, ← hstream]
        simp [storedBytes]
      refine ⟨⟨more, hfile ▸ hnext, hfile ▸ hbytes,
        fun chunk hmem => hlimit chunk (List.mem_cons_of_mem _ hmem), ?_⟩,
        by rw [hfile, hwanted, hdelivers.wanted], by rw [hfile, htotal, hdelivers.total]⟩
      have hnotDone : ¬(s.doneDecompressing = true ∨ s.file.doneDecompressing = true) :=
        fun h => by cases hflag h
      have hfileDone : file.doneDecompressing = true → more = [] := by
        intro h
        rw [hflags, Bool.or_eq_true, decide_eq_true_eq] at h
        rcases h with hold | hleft | hlong
        · exact absurd (Or.inr hold) hnotDone
        · exact hnext.totalLeft_eq_zero_iff.mp hleft
        · unfold Reader.writePosition at hlong
          rw [hwanted, hdelivers.wanted, ← hbytes, List.length_append] at hlong
          refine storedBytes_eq_nil_iff.mp (List.length_eq_zero_iff.mp ?_)
          omega
      rintro (h | h)
      · rcases hdone h with hold | hnew
        · exact absurd (Or.inl hold) hnotDone
        · exact hfileDone hnew
      · exact hfileDone (hfile ▸ h)

theorem Delivers.congr (hdelivers : Delivers codecs type limit stream s)
    (hfile : next.file = s.file)
    (hdone : next.doneDecompressing = true →
      s.doneDecompressing = true ∨ s.file.doneDecompressing = true) :
    Delivers codecs type limit stream next := by
  obtain ⟨rest, hbefore, hstream, hlimit, hflag⟩ := hdelivers.rest
  refine ⟨⟨rest, hfile ▸ hbefore, hfile ▸ hstream, hlimit, ?_⟩, hfile ▸ hdelivers.wanted,
    hfile ▸ hdelivers.total⟩
  rintro (h | h)
  · exact hflag (hdone h)
  · exact hflag (Or.inr (hfile ▸ h))

/-- The bytes in front of the write position are those of the stream. -/
theorem Delivers.bytes (hdelivers : Delivers codecs type limit stream s) {size : Nat}
    (hinside : s.readPosition + size ≤ s.writePosition) :
    s.bytes size = (stream.drop s.readPosition).take size := by
  obtain ⟨rest, -, hstream, -⟩ := hdelivers.rest
  unfold State.writePosition Reader.writePosition at hinside
  have hlength : size ≤ (s.file.output.drop s.readPosition).length := by
    rw [List.length_drop]
    omega
  unfold State.bytes
  rw [List.takeD_eq_take _ hlength, ← hstream, List.drop_append_of_le_length (by omega),
    List.take_append_of_le_length hlength]

/-- Once a flag says so, the whole stream is there. -/
theorem Delivers.complete (hdelivers : Delivers codecs type limit stream s)
    (hdone : s.doneDecompressing = true) : s.writePosition = stream.length := by
  obtain ⟨rest, -, hstream, -, hflag⟩ := hdelivers.rest
  have hrest := hflag (Or.inl hdone)
  rw [hrest] at hstream
  unfold State.writePosition Reader.writePosition
  rw [← hstream]
  simp [storedBytes]

end

/-! ## The consumer -/

/-- The stream position of a packet. -/
def frameStart (frames : List Frame) (k : Nat) : Nat := (framesBytes (frames.take k)).length

section

variable {frames : List Frame}

theorem frameStart_succ {k : Nat} {frame : Frame} (hk : frames[k]? = some frame) :
    frameStart frames (k + 1) = frameStart frames k + frame.size := by
  unfold frameStart
  rw [List.take_add_one, hk, framesBytes_append, List.length_append]
  simp [framesBytes, Frame.bytes]

/-- The stream from a packet on. -/
theorem drop_framesBytes {k : Nat} {frame : Frame} (hk : frames[k]? = some frame) :
    (framesBytes frames).drop (frameStart frames k) =
      frame.bytes ++ framesBytes (frames.drop (k + 1)) := by
  obtain ⟨hlt, hget⟩ := List.getElem?_eq_some_iff.mp hk
  have hsplit : framesBytes frames =
      framesBytes (frames.take k) ++ framesBytes (frames.drop k) := by
    rw [← framesBytes_append, List.take_append_drop]
  rw [hsplit, frameStart, List.drop_left' rfl, List.drop_eq_getElem_cons hlt, hget]
  simp [framesBytes]

/-- Only the last packet ends with the stream. -/
theorem frameStart_eq_length_iff {k : Nat} (hk : k ≤ frames.length) :
    frameStart frames k = (framesBytes frames).length ↔ k = frames.length := by
  constructor
  · intro hstart
    by_contra hne
    have hlt : k < frames.length := by omega
    have hdrop := congrArg List.length
      (drop_framesBytes (List.getElem?_eq_getElem hlt))
    rw [List.length_drop, hstart, List.length_append] at hdrop
    simp only [Frame.bytes, Packets.Frame.bytesWith_length, Packets.Frame.size] at hdrop
    omega
  · rintro rfl
    simp [frameStart]

/-- The header of a packet in the stream. -/
theorem header_bytes {k : Nat} {frame : Frame} (hk : frames[k]? = some frame) :
    ((framesBytes frames).drop (frameStart frames k)).take 1 = [frame.type.code] ∧
      ((framesBytes frames).drop (frameStart frames k + 1)).take 4 =
        LittleEndian.encode 4 frame.size := by
  have hdrop := drop_framesBytes hk
  refine ⟨?_, ?_⟩
  · rw [hdrop]
    simp [Frame.bytes, Packets.Frame.bytesWith]
  · rw [← List.drop_drop, hdrop]
    simp [Frame.bytes, Packets.Frame.bytesWith, List.take_left']

end

/-- The consumer is not inside of `step`. -/
def inHandler : Pc → Bool
  | .entered | .packetType | .packetSize _ | .aborted => false
  | _ => true

theorem inHandler_iff {pc : Pc} : inHandler pc = true ↔
    pc ≠ .entered ∧ pc ≠ .packetType ∧ (∀ type, pc ≠ .packetSize type) ∧ pc ≠ .aborted := by
  cases pc with
  | entered => exact ⟨Bool.noConfusion, fun h => absurd rfl h.1⟩
  | packetType => exact ⟨Bool.noConfusion, fun h => absurd rfl h.2.1⟩
  | packetSize type => exact ⟨Bool.noConfusion, fun h => absurd rfl (h.2.2.1 type)⟩
  | aborted => exact ⟨Bool.noConfusion, fun h => absurd rfl h.2.2.2⟩
  | _ => exact ⟨fun _ => by simp, fun _ => rfl⟩

/-- The open packet is the one that the counter says. -/
structure InPacket (frames : List Frame) (s : State) : Prop where
  frame : ∃ frame, frames[s.packet]? = some frame ∧ s.packetType = frame.type.code ∧
    s.packetSize = frame.size ∧ s.packetEnd = frameStart frames s.packet + frame.size
  read_le : s.readPosition ≤ s.packetEnd

/-- No packet is open: the consumer stands in front of the next one, or has read a
part of its header. -/
def Between (frames : List Frame) (steps : Nat) (s : State) : Prop :=
  match s.pc with
  | .idle =>
      s.packet ≤ frames.length ∧ s.readPosition = frameStart frames s.packet ∧
        (s.terminated = false → steps = s.packet) ∧
        (s.terminated = true → s.packet = frames.length)
  | .entered =>
      s.packet ≤ frames.length ∧ s.readPosition = frameStart frames s.packet ∧
        steps = s.packet ∧ s.terminated = false
  | .packetType =>
      s.packet < frames.length ∧ s.packetStart = frameStart frames s.packet ∧
        s.readPosition = frameStart frames s.packet ∧ steps = s.packet + 1 ∧
        s.terminated = false
  | .packetSize type =>
      ∃ frame, frames[s.packet]? = some frame ∧ type = frame.type.code ∧
        s.packetStart = frameStart frames s.packet ∧
        s.readPosition = frameStart frames s.packet + 1 ∧ steps = s.packet + 1 ∧
        s.terminated = false
  | _ => False

/-- Where the consumer stands after `steps` looks for a packet. -/
structure Reading (frames : List Frame) (steps : Nat) (s : State) : Prop where
  opened : s.packetOpen = true → inHandler s.pc = true ∧ InPacket frames s ∧
    steps = s.packet + 1 ∧ s.terminated = false
  closed : s.packetOpen = false → Between frames steps s

section

variable {codecs : Codecs} {config : Config} {type : CompressionType} {limit total : Nat}
variable {frames : List Frame} {steps : Nat} {s next : State}

/-- The members that say where the consumer stands. -/
def place (s : State) :
    Bool × Pc × Nat × UInt8 × Nat × Nat × Nat × Nat × Bool :=
  (s.packetOpen, s.pc, s.packet, s.packetType, s.packetSize, s.packetStart, s.packetEnd,
    s.readPosition, s.terminated)

theorem Reading.congr (hreading : Reading frames steps s) (hplace : place next = place s) :
    Reading frames steps next := by
  simp only [place, Prod.mk.injEq] at hplace
  obtain ⟨hopen, hpc, hpacket, htype, hsize, hstart, hend, hread, hterminated⟩ := hplace
  obtain ⟨hopened, hclosed⟩ := hreading
  refine ⟨fun h => ?_, fun h => ?_⟩
  · obtain ⟨hhandler, ⟨hframe, hle⟩, hsteps, hrunning⟩ := hopened (hopen ▸ h)
    rw [hpc, hpacket, hterminated]
    exact ⟨hhandler, ⟨by rw [hpacket, htype, hsize, hend]; exact hframe,
      by rw [hread, hend]; exact hle⟩, hsteps, hrunning⟩
  · have hbetween := hclosed (hopen ▸ h)
    unfold Between at hbetween ⊢
    rw [hpc, hpacket, hstart, hread, hterminated]
    exact hbetween

/-- Inside of `step` no packet is open. -/
theorem Reading.closed_of_step (hreading : Reading frames steps s)
    (hplace : inHandler s.pc = false) : s.packetOpen = false := by
  refine Bool.eq_false_of_not_eq_true fun h => ?_
  have hinside := (hreading.opened h).1
  rw [hplace] at hinside
  cases hinside

theorem Between.reading (hbetween : Between frames steps s) (hclosed : s.packetOpen = false) :
    Reading frames steps s := by
  refine ⟨fun h => ?_, fun _ => hbetween⟩
  rw [hclosed] at h
  cases h

/-- In front of a packet, or behind the last one. -/
theorem Reading.between (hreading : Reading frames steps s) (hopen : s.packetOpen = false)
    (hpc : s.pc = .idle) :
    s.packet ≤ frames.length ∧ s.readPosition = frameStart frames s.packet ∧
      (s.terminated = false → steps = s.packet) ∧
      (s.terminated = true → s.packet = frames.length) := by
  have hbetween := hreading.closed hopen
  unfold Between at hbetween
  rw [hpc] at hbetween
  exact hbetween

/-- **`complete_packet`** leaves the consumer in front of the next packet. -/
theorem completePacket_reading (hreading : Reading frames steps s) (hpc : s.pc = .idle) :
    (completePacket s).packetOpen = false ∧ (completePacket s).pc = .idle ∧
      (completePacket s).terminated = s.terminated ∧
      Reading frames steps (completePacket s) := by
  unfold completePacket
  cases hopen : s.packetOpen with
  | false => exact ⟨hopen, hpc, rfl, hreading⟩
  | true =>
      obtain ⟨-, hin, hsteps, hrunning⟩ := hreading.opened hopen
      obtain ⟨frame, hframe, -, -, hend⟩ := hin.frame
      rw [if_pos rfl, if_neg (by have := hin.read_le; omega)]
      refine ⟨rfl, hpc, rfl, (fun h => by cases h), fun _ => ?_⟩
      unfold Between
      simp only [hpc]
      obtain ⟨hlt, -⟩ := List.getElem?_eq_some_iff.mp hframe
      refine ⟨hlt, ?_, fun _ => hsteps, fun h => ?_⟩
      · rw [hend, frameStart_succ hframe]
      · rw [hrunning] at h
        cases h

/-- A call of the consumer. -/
theorem start_reading {call : FileReader.Call} (hinv : Inv total s)
    (hreading : Reading frames steps s) (hpc : s.pc = .idle)
    (hstays : handlerStays s (.call call) = true) :
    Reading frames steps (start config s call) := by
  -- a read of a handler begins
  have hbegins : ∀ pc, inHandler pc = true → s.packetOpen = true →
      Reading frames steps { s with pc := pc } := by
    intro pc hhandler hopen
    obtain ⟨-, hin, hrest⟩ := hreading.opened hopen
    refine ⟨fun _ => ⟨hhandler, ⟨hin.frame, hin.read_le⟩, hrest⟩, fun h => ?_⟩
    rw [show s.packetOpen = false from h] at hopen
    cases hopen
  cases call with
  | step =>
      obtain ⟨hclosed, hidle, hterminated, hcompleted⟩ :=
        completePacket_reading hreading hpc
      obtain ⟨hle, hread, hsteps, -⟩ := hcompleted.between hclosed hidle
      have hrunning : (completePacket s).terminated = false := by
        rw [hterminated]
        simpa [handlerStays] using hstays
      simp only [start]
      rw [if_neg (by simp [hidle])]
      exact Between.reading ⟨hle, hread, hsteps hrunning, hrunning⟩ hclosed
  | completePacket => exact (completePacket_reading hreading hpc).2.2.2
  | setCheckpoint => exact hreading.congr rfl
  | releaseCheckpoint =>
      obtain ⟨freed, checkpoint, hreleased, -⟩ := releaseCheckpoint_inv config hinv
      simp only [start, hreleased]
      exact hreading.congr rfl
  | readValue width => exact hbegins _ rfl hstays
  | readArray size => exact hbegins _ rfl hstays
  | readPatch maxsize => exact hbegins _ rfl hstays
  | readString => exact hbegins _ rfl hstays

/-- What `step` sees when it looks for a packet. -/
theorem done_iff (hinv : Inv total s) (htotal : total < 2 ^ 64)
    (hdelivers : Delivers codecs type limit (framesBytes frames) s)
    (hle : s.packet ≤ frames.length)
    (hread : s.readPosition = frameStart frames s.packet)
    (hclear : keepsClear s (.poll false) = true) :
    s.done = true ↔ s.packet = frames.length := by
  have havailable := hinv.ordered.available (hinv.total_eq ▸ htotal)
  rw [← frameStart_eq_length_iff hle, ← hread]
  unfold State.done
  rw [Bool.and_eq_true, decide_eq_true_eq, havailable]
  have hbound := hinv.ordered.read_le_write
  constructor
  · rintro ⟨hdone, hzero⟩
    rw [← hdelivers.complete hdone]
    omega
  · intro hend
    simp only [keepsClear, Bool.or_eq_true, decide_eq_true_eq, hdelivers.total, hend,
      Nat.lt_irrefl, false_or] at hclear
    refine ⟨hclear, ?_⟩
    rw [hdelivers.complete hclear, hend]
    omega

/-- The entry of `step`. -/
theorem poll_reading (hinv : Inv total s) (htotal : total < 2 ^ 64)
    (hdelivers : Delivers codecs type limit (framesBytes frames) s)
    (hreading : Reading frames steps s) (hpc : s.pc = .entered)
    (hclear : keepsClear s (.poll false) = true) :
    Reading frames (steps + 1) (poll config s false) ∧
      ((poll config s false).terminated = true ↔ s.packet = frames.length) := by
  have hopen : s.packetOpen = false := hreading.closed_of_step (by rw [hpc]; rfl)
  have hbetween := hreading.closed hopen
  unfold Between at hbetween
  rw [hpc] at hbetween
  obtain ⟨hle, hread, hsteps, hrunning⟩ := hbetween
  have hdone := done_iff hinv htotal hdelivers hle hread hclear
  unfold poll
  rw [Bool.false_or]
  by_cases hend : s.done = true
  · rw [if_pos hend]
    refine ⟨Between.reading ?_ hopen, iff_of_true rfl (hdone.mp hend)⟩
    exact ⟨hle, hread, (fun h => by cases h), fun _ => hdone.mp hend⟩
  · rw [if_neg hend]
    obtain ⟨freed, checkpoint, hreleased, -⟩ := releaseCheckpoint_inv config hinv
    simp only [hreleased]
    rw [if_neg (by simp [hpc])]
    have hmore : s.packet ≠ frames.length := fun h => hend (hdone.mpr h)
    refine ⟨Between.reading ?_ hopen, iff_of_false (by simp [hrunning]) hmore⟩
    exact ⟨by simp only; omega, hread, hread, by simp only; omega, hrunning⟩

/-- A handler goes on in its packet. -/
theorem Reading.goOn (hreading : Reading frames steps s) (hhandler : inHandler s.pc = true)
    (hidle : s.pc ≠ .idle) (pc : Pc) (hnext : inHandler pc = true) {position : Nat}
    (hinside : position ≤ s.packetEnd)
    (hplace : place next = place { s with readPosition := position, pc := pc }) :
    Reading frames steps next := by
  refine Reading.congr ⟨fun hopen => ?_, fun hclosed => ?_⟩ hplace
  · obtain ⟨-, hin, hrest⟩ := hreading.opened hopen
    exact ⟨hnext, ⟨hin.frame, hinside⟩, hrest⟩
  · have hbetween := hreading.closed hclosed
    unfold Between at hbetween
    cases hpc : s.pc <;> simp_all [inHandler_iff]

/-- The type of a packet is the one that was written. -/
theorem packetType_reading {needed : Nat} (hreading : Reading frames steps s)
    (hpc : s.pc = .packetType)
    (hbytes : s.bytes 1 = ((framesBytes frames).drop s.readPosition).take 1) :
    Reading frames steps (advance
      { s with
        neededWritePosition := needed
        waiting := none
        readPosition := s.readPosition + 1 } (s.bytes 1)) := by
  have hopen := hreading.closed_of_step (by rw [hpc]; rfl)
  have hbetween := hreading.closed hopen
  simp only [Between, hpc] at hbetween
  obtain ⟨hlt, hstart, hread, hsteps, hrunning⟩ := hbetween
  have hframe := List.getElem?_eq_getElem hlt
  rw [hread, (header_bytes hframe).1] at hbytes
  simp only [advance, hpc, hbytes, List.headD_cons]
  -- zero is no type of a packet
  rw [if_pos (Packets.PacketType.code_ne_zero _)]
  refine Between.reading ?_ hopen
  exact ⟨_, hframe, rfl, hstart, by simp only [hread], hsteps, hrunning⟩

/-- The size of a packet is the one that was patched in at its end. -/
theorem packetSize_reading {needed : Nat} {code : UInt8} (hreading : Reading frames steps s)
    (hsmall : ∀ frame ∈ frames, frame.size < 2 ^ 32) (hpc : s.pc = .packetSize code)
    (hbytes : s.bytes 4 = ((framesBytes frames).drop s.readPosition).take 4) :
    Reading frames steps (advance
      { s with
        neededWritePosition := needed
        waiting := none
        readPosition := s.readPosition + 4 } (s.bytes 4)) := by
  have hopen := hreading.closed_of_step (by rw [hpc]; rfl)
  have hbetween := hreading.closed hopen
  simp only [Between, hpc] at hbetween
  obtain ⟨frame, hframe, hcode, hstart, hread, hsteps, hrunning⟩ := hbetween
  have hfits := hsmall frame (List.mem_of_getElem? hframe)
  rw [hread, (header_bytes hframe).2] at hbytes
  have hword : LittleEndian.decode (s.bytes 4) = frame.size := by
    rw [hbytes, LittleEndian.decode_encode (by omega)]
  have hsize : frame.size = 5 + frame.payload.length := rfl
  simp only [advance, hpc, hword]
  rw [if_neg (by omega)]
  refine ⟨fun _ => ⟨rfl, ⟨⟨frame, hframe, hcode, rfl, ?_⟩, ?_⟩, hsteps, hrunning⟩,
    fun h => by cases h⟩
  · simp only [hstart]
  · simp only [hread, hstart]
    omega

/-- **What a read does** with the bytes of the stream. -/
theorem advance_reading {needed size : Nat} (hreading : Reading frames steps s)
    (hsmall : ∀ frame ∈ frames, frame.size < 2 ^ 32)
    (hrequest : s.pc.request = some size)
    (hbytes : s.bytes size = ((framesBytes frames).drop s.readPosition).take size)
    (hstays : handlerStays s .consume = true) :
    Reading frames steps (advance
      { s with
        neededWritePosition := needed
        waiting := none
        readPosition := s.readPosition + size } (s.bytes size)) := by
  cases hpc : s.pc with
  | idle | entered | aborted =>
      rw [hpc] at hrequest
      cases hrequest
  | packetType =>
      rw [hpc] at hrequest
      cases hrequest
      rw [← hpc]
      exact packetType_reading hreading hpc hbytes
  | packetSize code =>
      rw [hpc] at hrequest
      cases hrequest
      rw [← hpc]
      exact packetSize_reading hreading hsmall hpc hbytes
  | value width =>
      rw [hpc] at hrequest
      cases hrequest
      simp only [handlerStays, hpc, decide_eq_true_eq] at hstays
      exact hreading.goOn (by simp [hpc, inHandler_iff]) (by simp [hpc]) .idle rfl hstays
        (by simp [advance, place])
  | array length =>
      rw [hpc] at hrequest
      cases hrequest
      simp only [handlerStays, hpc, decide_eq_true_eq] at hstays
      exact hreading.goOn (by simp [hpc, inHandler_iff]) (by simp [hpc]) .idle rfl hstays
        (by simp [advance, place])
  | patchOffset maxsize position =>
      rw [hpc] at hrequest
      cases hrequest
      simp only [handlerStays, hpc, decide_eq_true_eq] at hstays
      refine hreading.goOn (by simp [hpc, inHandler_iff]) (by simp [hpc])
        (.patchSize maxsize (position + LittleEndian.decode (s.bytes 4))
          (LittleEndian.decode (s.bytes 4))) rfl hstays.1 ?_
      simp only [advance]
      rw [if_pos hstays.2]
      rfl
  | patchSize maxsize position offset =>
      rw [hpc] at hrequest
      cases hrequest
      simp only [handlerStays, hpc, decide_eq_true_eq] at hstays
      exact hreading.goOn (by simp [hpc, inHandler_iff]) (by simp [hpc])
        (.patchBytes maxsize position offset (LittleEndian.decode (s.bytes 4))) rfl
        hstays (by simp [advance, place])
  | patchBytes maxsize position offset length =>
      rw [hpc] at hrequest
      cases hrequest
      simp only [handlerStays, hpc, decide_eq_true_eq] at hstays
      refine hreading.goOn (by simp [hpc, inHandler_iff]) (by simp [hpc])
        (if offset = 0 ∧ size = 0 then .idle
          else .patchOffset maxsize (position + size)) ?_ hstays.1 ?_
      · split <;> rfl
      · simp only [advance]
        rw [if_pos hstays.2]
        split <;> rfl
  | stringLength =>
      rw [hpc] at hrequest
      cases hrequest
      simp only [handlerStays, hpc, decide_eq_true_eq] at hstays
      refine hreading.goOn (by simp [hpc, inHandler_iff]) (by simp [hpc])
        (if LittleEndian.decode (s.bytes 2) > 0 then
          .array (LittleEndian.decode (s.bytes 2)) else .idle) ?_ hstays ?_
      · split <;> rfl
      · simp only [advance]
        split <;> rfl

/-- A read of the consumer: it goes on, or to sleep. -/
theorem consumed_reading {size : Nat} (hinv : Inv total s) (htotal : total < 2 ^ 64)
    (hdelivers : Delivers codecs type limit (framesBytes frames) s)
    (hsmall : ∀ frame ∈ frames, frame.size < 2 ^ 32) (hstalls : config.allowStalls = true)
    (hreading : Reading frames steps s) (hstays : handlerStays s .consume = true)
    (hclear : keepsClear s .consume = true) (hrequest : s.pc.request = some size)
    (hconsumed : Consumed codecs config s size next) : Reading frames steps next := by
  have havailable := hinv.ordered.available (hinv.total_eq ▸ htotal)
  have hread := hinv.ordered.read_le_write
  cases hconsumed with
  | stalled hstalled => simp [State.stalled, hstalls] at hstalled
  | outside hmissing houtside =>
      -- the end of the stream is not so close
      simp only [keepsClear, hrequest, Bool.or_eq_true, decide_eq_true_eq] at hclear
      exact absurd (hclear.resolve_left (Nat.not_le.mpr hmissing)) houtside
  | served hspace =>
      refine advance_reading hreading hsmall hrequest (hdelivers.bytes ?_) hstays
      omega
  | slept | decompressed => exact hreading.congr rfl

/-- What a run of the reader keeps. -/
structure ReaderInv (codecs : Codecs) (type : CompressionType) (limit : Nat)
    (frames : List Frame) (trace : List Label) (s : State) : Prop where
  positions : Inv (framesBytes frames).length s
  delivers : Delivers codecs type limit (framesBytes frames) s
  reading : Reading frames (stepsTaken trace) s

theorem consumed_delivers {size : Nat} (hinverse : codecs.Inverse type limit)
    {stream : List UInt8} (hdelivers : Delivers codecs type limit stream s)
    (hconsumed : Consumed codecs config s size next) :
    Delivers codecs type limit stream next := by
  have hfile : ∀ (state : State) bytes, (advance state bytes).file = state.file :=
    fun state bytes => congrArg Prod.fst (advance_positions state bytes)
  have hdone : ∀ (state : State) bytes,
      (advance state bytes).doneDecompressing = state.doneDecompressing := by
    intro state bytes
    cases hpc : state.pc <;> simp only [advance, hpc]
    all_goals repeat' split
    all_goals rfl
  cases hconsumed with
  | stalled | outside | slept => exact hdelivers.congr rfl Or.inl
  | served =>
      refine hdelivers.congr (hfile _ _) fun h => ?_
      rw [hdone] at h
      exact Or.inl h
  | decompressed _ _ _ hchunk =>
      refine hdelivers.decompressed hinverse hchunk rfl fun h => ?_
      simpa using h

theorem releaseCheckpoint_delivered (config : Config) (s : State) :
    (releaseCheckpoint config s).file = s.file ∧
      (releaseCheckpoint config s).doneDecompressing = s.doneDecompressing := by
  unfold releaseCheckpoint
  split
  · exact ⟨rfl, rfl⟩
  · simp only
    repeat' split
    all_goals exact ⟨rfl, rfl⟩

/-- The consumer leaves the members of the decompressor alone. -/
theorem start_delivered (config : Config) (s : State) (call : FileReader.Call) :
    (start config s call).file = s.file ∧
      (start config s call).doneDecompressing = s.doneDecompressing := by
  cases call with
  | step | completePacket =>
      simp only [start, completePacket]
      repeat' split
      all_goals exact ⟨rfl, rfl⟩
  | releaseCheckpoint => exact releaseCheckpoint_delivered config s
  | _ => exact ⟨rfl, rfl⟩

theorem poll_delivered (config : Config) (s : State) (stop : Bool) :
    (poll config s stop).file = s.file ∧
      (poll config s stop).doneDecompressing = s.doneDecompressing := by
  have hreleased := releaseCheckpoint_delivered config s
  unfold poll
  split
  · exact ⟨rfl, rfl⟩
  · simp only
    split
    · exact hreleased
    · exact hreleased

theorem stepsTaken_snoc (trace : List Label) (label : Label) :
    stepsTaken (trace ++ [label]) = stepsTaken trace +
      match label with
      | .poll _ => 1
      | _ => 0 := by
  cases label <;> simp [stepsTaken]

/-- **The decompressor**, in one step of either thread. -/
theorem step_delivers (hinverse : codecs.Inverse type limit) {stream : List UInt8}
    {label : Label} (hdelivers : Delivers codecs type limit stream s)
    (hstep : FileReader.step codecs config s label = some next) :
    Delivers codecs type limit stream next := by
  cases step_stepped hstep with
  | decompress _ _ _ hchunk => exact hdelivers.decompressed hinverse hchunk rfl Or.inl
  | storeDone =>
      refine hdelivers.congr rfl fun h => ?_
      simpa using h
  | consume _ _ hconsumed => exact consumed_delivers hinverse hdelivers hconsumed
  | call =>
      obtain ⟨hfile, hdone⟩ := start_delivered config s _
      exact hdelivers.congr hfile fun h => Or.inl (hdone ▸ h)
  | poll =>
      obtain ⟨hfile, hdone⟩ := poll_delivered config s _
      exact hdelivers.congr hfile fun h => Or.inl (hdone ▸ h)

/-- **One step of either thread.** -/
theorem step_readerInv (hinverse : codecs.Inverse type limit)
    (htotal : (framesBytes frames).length < 2 ^ 64)
    (hsmall : ∀ frame ∈ frames, frame.size < 2 ^ 32) (hstalls : config.allowStalls = true)
    {trace : List Label} {label : Label}
    (hinv : ReaderInv codecs type limit frames trace s)
    (hstays : handlerStays s label = true) (hclear : keepsClear s label = true)
    (hstep : FileReader.step codecs config s label = some next) :
    ReaderInv codecs type limit frames (trace ++ [label]) next := by
  obtain ⟨hpositions, hdelivers, hreading⟩ := hinv
  have hskip : skipsAhead s label = false := by
    cases label with
    | call call =>
        cases call with
        | step | completePacket => simpa [skipsAhead, keepsClear, imp_iff_not_or] using hclear
        | _ => rfl
    | _ => rfl
  refine ⟨step_inv hpositions htotal hskip hstep, step_delivers hinverse hdelivers hstep, ?_⟩
  rw [stepsTaken_snoc]
  cases step_stepped hstep with
  | decompress | storeDone => exact hreading.congr rfl
  | consume hrequest _ hconsumed =>
      exact consumed_reading hpositions htotal hdelivers hsmall hstalls hreading hstays
        hclear hrequest hconsumed
  | call hpc => exact start_reading hpositions hreading hpc hstays
  | @poll stop hpc =>
      obtain rfl : stop = false := by simpa [handlerStays] using hstays
      exact (poll_reading hpositions htotal hdelivers hreading hpc hclear).1

/-- A reader that has just been opened on a stream of packets. -/
theorem readerInv_init {stored : List Stored} (hstored : stored ≠ [])
    (hbytes : storedBytes stored = framesBytes frames)
    (hlimit : ∀ chunk ∈ stored, chunk.chunk.length ≤ limit)
    (hfile : (fileBytes type (stored.map (Stored.record codecs type))).length < 2 ^ 64)
    {reader : Container.Reader}
    (hinit : Container.init (fileBytes type (stored.map (Stored.record codecs type)))
      (framesBytes frames).length (framesBytes frames).length = some reader)
    (preloadActive : Bool) :
    ReaderInv codecs type limit frames [] (State.init reader preloadActive) := by
  obtain ⟨opened, hopened, hbefore, hempty, -⟩ :=
    init_stored codecs type hstored hfile (framesBytes frames).length
  rw [hbytes] at hopened
  cases hopened.symm.trans hinit
  have hrest : reader.doneDecompressing = false ∧
      reader.uncompressedWanted = (framesBytes frames).length := by
    rw [init_fileBytes type _ (by
      refine Nat.pos_of_ne_zero fun hzero => hstored ?_
      exact storedBytes_eq_nil_iff.mp (List.length_eq_zero_iff.mp (hbytes ▸ hzero)))] at hinit
    cases hinit
    exact ⟨rfl, rfl⟩
  have hpositions := inv_init hinit preloadActive
  refine ⟨hpositions, ⟨⟨stored, hbefore, ?_, hlimit, ?_⟩, hrest.2, hpositions.total_eq⟩, ?_⟩
  · simp [State.init, hempty, hbytes]
  · rintro (h | h)
    · cases h
    · simp only [State.init, hrest.1] at h
      cases h
  · exact ⟨(fun h => by cases h),
      fun _ => ⟨Nat.zero_le _, rfl, (fun _ => rfl), fun h => by cases h⟩⟩

/-- What a state of the reader says about the packets. -/
theorem Reading.yields (hreading : Reading frames steps s) :
    s.pc ≠ .aborted ∧
      (s.packetOpen = true → ∃ frame, frames[s.packet]? = some frame ∧
        s.packetType = frame.type.code ∧ s.packetSize = frame.size ∧
        s.packet + 1 = steps) := by
  refine ⟨fun haborted => ?_, fun hopen => ?_⟩
  · cases hopen : s.packetOpen with
    | true => simpa [haborted, inHandler_iff] using (hreading.opened hopen).1
    | false => simpa [Between, haborted] using hreading.closed hopen
  · obtain ⟨-, hin, hsteps, -⟩ := hreading.opened hopen
    obtain ⟨frame, hframe, htype, hsize, -⟩ := hin.frame
    exact ⟨frame, hframe, htype, hsize, hsteps.symm⟩

end

/-- **Packet framing.**  While a packet is written, its size word is in a chunk that
has not been handed over, and the packet counter is the number of packets in front
of it.  When all packets are ended, every run of a reader on the file, in which the
consumer does not run into the decompressor, yields at its `k`-th step the type and
the size of the `k`-th packet, and `step` returns zero exactly behind the last. -/
theorem packet_framing_round_trip (codecs : Codecs) (type : CompressionType)
    (limit : Nat) (hinverse : codecs.Inverse type limit) (chunkSize : Nat)
    (hchunkSize : chunkSize ≤ limit) (calls : List Packets.Call) (p : PacketWriter)
    (hcalls : exec Packets.step (PacketWriter.new chunkSize) calls = some p)
    (hblocks : ∀ op ∈ p.ops, op.size ≤ limit) :
    (p.packet = (draftOf calls).finished.length ∧
      (p.packetOpen = true → p.writer.Pins p.packetSize 4)) ∧
    (p.packetOpen = false → ∀ file reader,
      Wrote codecs type chunkSize p.ops file → file.length < 2 ^ 64 →
      p.writer.uncompressedBytes < 2 ^ 64 →
      Container.init file p.writer.uncompressedBytes p.writer.uncompressedBytes =
        some reader →
      ∀ (config : Config) (preloadActive : Bool) (labels : List Label) (final : State),
        config.allowStalls = true →
        exec (FileReader.step codecs config) (State.init reader preloadActive) labels =
          some final →
        Along (FileReader.step codecs config)
          (fun s label => handlerStays s label = true) (State.init reader preloadActive)
          labels →
        Along (FileReader.step codecs config)
          (fun s label => keepsClear s label = true) (State.init reader preloadActive)
          labels →
        ∀ k s, exec (FileReader.step codecs config) (State.init reader preloadActive)
            (labels.take k) = some s →
          s.pc ≠ .aborted ∧
          (s.packetOpen = true → ∃ frame, (draftOf calls).finished[s.packet]? = some frame ∧
            s.packetType = frame.type.code ∧ s.packetSize = frame.size ∧
            s.packet + 1 = stepsTaken (labels.take k)) ∧
          (labels[k]? = some (.poll false) →
            ((poll config s false).terminated = true ↔
              s.packet = (draftOf calls).finished.length))) := by
  have hwrites := Packets.exec_refines hcalls
  refine ⟨⟨hwrites.packet, fun hopen => (hwrites.pinned hopen).2.1⟩, ?_⟩
  intro hclosed file reader hwrote hfile hsize hinit config preloadActive labels final
    hstalls hrun hstays hclear k s hfront
  -- the file holds the bytes of the finished packets
  have hnone : (draftOf calls).current = none := by
    rw [hwrites.packetOpen] at hclosed
    simpa using hclosed
  have hstream : (draftOf calls).bytes = framesBytes (draftOf calls).finished := by
    simp [Packets.Draft.bytes, hnone]
  obtain ⟨stored, rfl, hbytes, hlimit⟩ := hwrote.stored hchunkSize hblocks
  rw [hwrites.stream, hstream] at hbytes
  rw [hwrites.uncompressedBytes, hstream] at hsize hinit
  have hstored : stored ≠ [] := by
    rintro rfl
    rw [← hbytes] at hinit
    simp [Container.init, storedBytes] at hinit
  have hstart := readerInv_init hstored hbytes hlimit hfile hinit preloadActive
  -- and the reader stands in front of one of them
  have hinv : ReaderInv codecs type limit (draftOf calls).finished (labels.take k) s := by
    have hboth : Along (FileReader.step codecs config)
        (fun s label => handlerStays s label = true ∧ keepsClear s label = true)
        (State.init reader preloadActive) labels := hstays.and hclear
    have hreached := exec_trace_invariant
      (fun trace s label next hinv hcond hstep => step_readerInv hinverse hsize
        hwrites.small hstalls hinv hcond.1 hcond.2 hstep)
      hstart (along_take hboth hrun k) hfront
    simpa using hreached
  obtain ⟨hpc, hyields⟩ := hinv.reading.yields
  refine ⟨hpc, hyields, fun hlabel => ?_⟩
  obtain ⟨next, hstep⟩ := exec_getElem? hrun hfront hlabel
  have hentered : s.pc = .entered := by
    cases step_stepped hstep with
    | poll hpc => exact hpc
  have hseen := along_getElem? hclear hfront hlabel
  exact (poll_reading hinv.positions hsize hinv.delivers hinv.reading hentered hseen).2

/-- An API call and, with an implicit end of it, a thread barrier. -/
def twoPackets : List Packets.Call :=
  [.beginPacket .vulkanApiCall, .write [1, 2, 3, 4], .beginPacket .threadBarrier, .write [0],
    .endPacket]

/-- The operations on the file, in chunks of five bytes. -/
def twoPacketsOps : List FileWriter.Op :=
  [.block [2], .later [0, 0, 0, 0], .block [1, 2, 3, 4], .poke 1 [9, 0, 0, 0], .thaw,
    .block [3], .later [0, 0, 0, 0], .block [0], .poke 10 [6, 0, 0, 0], .thaw]

/-- The chunks of the file. -/
def twoPacketsStored : List Stored :=
  [⟨[2, 9, 0, 0, 0], List.replicate 16 0, by decide, stray_zeroes⟩,
    ⟨[1, 2, 3, 4, 3], List.replicate 16 0, by decide, stray_zeroes⟩,
    ⟨[6, 0, 0, 0, 0], List.replicate 16 0, by decide, stray_zeroes⟩]

def twoPacketsFile : List UInt8 :=
  fileBytes .lz4 (twoPacketsStored.map (Stored.record literalCodecs .lz4))

/-- The compressor and the serializer run after the last operation. -/
def twoPacketsPipeline : List Pipeline.Label :=
  twoPacketsOps.map .op ++
    ([.finalize, .feedDone, .compressorTake, .compressorPut, .compressorTake, .compressorPut,
      .compressorTake, .compressorPut, .compressorExit, .joinCompressor, .serializerTake,
      .serializerPut, .serializerTake, .serializerPut, .serializerTake, .serializerPut,
      .serializerExit, .joinSerializer] : List Pipeline.Label)

theorem twoPacketsFile_wrote :
    Wrote literalCodecs .lz4 5 twoPacketsOps twoPacketsFile := by
  have hrun : (exec (Pipeline.step (packer literalCodecs .lz4 fun _ => List.replicate 16 0))
      (Pipeline.State.init 5 true true) twoPacketsPipeline).isSome = true := by
    decide
  refine ⟨fun _ => List.replicate 16 0, twoPacketsPipeline, _, (fun _ => by simp),
    (Option.some_get hrun).symm, by decide, by decide +revert, by decide +revert⟩

/-- The chunks are there when the packets are read; the first handler reads two
bytes of its payload. -/
def twoPacketsRun : List Label :=
  [.decompress, .storeDone, .decompress, .storeDone, .decompress, .storeDone, .call .step,
    .poll false, .consume, .consume, .call (.readValue 2), .consume, .call .step, .poll false,
    .consume, .consume, .call .step, .poll false]

/-- The reader, opened on the file. -/
def twoPacketsReader : Container.Reader :=
  { input := ((twoPacketsStored.map (Stored.record literalCodecs .lz4)).map
      recordBytes).flatten
    totalLeft := 66
    algorithm := .lz4
    version := 3
    totalUncompressed := 15
    uncompressedWanted := 15 }

theorem packet_framing_round_trip_twoPackets :
    ∃ s, exec (FileReader.step literalCodecs {}) (State.init twoPacketsReader true)
        (twoPacketsRun.take 16) = some s ∧
      s.packetOpen = true ∧ s.packet = 1 ∧
      ∃ frame, (draftOf twoPackets).finished[s.packet]? = some frame ∧
        s.packetType = frame.type.code ∧ s.packetSize = frame.size := by
  obtain ⟨p, hcalls, hops, hclosed, hsize⟩ : ∃ p,
      exec Packets.step (PacketWriter.new 5) twoPackets = some p ∧ p.ops = twoPacketsOps ∧
        p.packetOpen = false ∧ p.writer.uncompressedBytes = 15 := ⟨_, rfl, rfl, rfl, rfl⟩
  have hends : (exec (FileReader.step literalCodecs {})
      (State.init twoPacketsReader true) twoPacketsRun).isSome = true := by decide
  obtain ⟨final, hrun⟩ := Option.isSome_iff_exists.mp hends
  have hreaches : (exec (FileReader.step literalCodecs {}) (State.init twoPacketsReader true)
      (twoPacketsRun.take 16)).map (fun s => (s.packetOpen, s.packet)) = some (true, 1) := by
    decide
  obtain ⟨s, hs, hplace⟩ := Option.map_eq_some_iff.mp hreaches
  obtain ⟨hopen, hpacket⟩ := Prod.mk.inj hplace
  have hread := (packet_framing_round_trip literalCodecs .lz4 12 literalCodecs_inverse 5
    (by decide) twoPackets p hcalls (by rw [hops]; decide)).2 hclosed twoPacketsFile
    twoPacketsReader (hops ▸ twoPacketsFile_wrote) (by decide) (by omega)
    (by rw [hsize]; decide) {} true twoPacketsRun final rfl hrun (by decide) (by decide)
  obtain ⟨frame, hframe, htype, hword, -⟩ := (hread 16 s hs).2.1 hopen
  exact ⟨s, hs, hopen, hpacket, frame, hframe, htype, hword⟩

/-- The first packet is skipped while its payload is still compressed. -/
def hurriedRun : List Label :=
  [.decompress, .storeDone, .call .step, .poll false, .consume, .consume, .call .step,
    .poll false, .consume]

/-- All packets have been read before the flag behind the last chunk is stored. -/
def racingRun : List Label :=
  [.decompress, .storeDone, .decompress, .storeDone, .decompress, .call .step, .poll false,
    .consume, .consume, .call .step, .poll false, .consume, .consume, .call .step,
    .poll false, .consume]

/-- In both runs an assertion fails: `step` reads the type of the second packet from
memory that has not been written, and looks for a third packet that there is not. -/
theorem step_loses_packets :
    Wrote literalCodecs .lz4 5 twoPacketsOps twoPacketsFile ∧
    Container.init twoPacketsFile 15 15 = some twoPacketsReader ∧
    (draftOf twoPackets).finished.length = 2 ∧
    (∃ s, exec (FileReader.step literalCodecs {}) (State.init twoPacketsReader true)
        hurriedRun = some s ∧
      Along (FileReader.step literalCodecs {}) (fun s label => handlerStays s label = true)
        (State.init twoPacketsReader true) hurriedRun ∧
      s.pc = .aborted ∧ s.packet = 1) ∧
    (∃ s, exec (FileReader.step literalCodecs {}) (State.init twoPacketsReader true)
        racingRun = some s ∧
      Along (FileReader.step literalCodecs {}) (fun s label => handlerStays s label = true)
        (State.init twoPacketsReader true) racingRun ∧
      s.pc = .aborted ∧ s.packet = 2) :=
  ⟨twoPacketsFile_wrote, by decide, by decide, ⟨_, rfl, by decide, rfl, rfl⟩,
    ⟨_, rfl, by decide, rfl, rfl⟩⟩

end PacketReader
end Lavatube
