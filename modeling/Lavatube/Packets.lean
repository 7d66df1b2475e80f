import Lavatube.Lib.Transition
import Lavatube.Pipeline

/-!
# Packets

`lava_file_writer` frames what it writes into packets: a type byte, a 32-bit size
word and the payload.  The size word is written as a placeholder by `begin_packet`
and stored through a pointer by `end_packet`, when the size is known; a payload may
defer values in the same way.  Between the two the writer is frozen.

`Draft` is what this is for: a list of finished packets and at most one open one.

* `step_refines` — every call does to the stream what it does to the draft.
* `exec_refines` — and so does every sequence of calls.
-/

namespace Lavatube
namespace Packets

open FileWriter Pipeline Overwrite Transition

/-- The packet types. -/
inductive PacketType where
  | vulkanApiCall
  | threadBarrier
  | imageUpdate
  | bufferUpdate
  | vulkanscApiCall
  | tensorUpdate
  | imageUpdate2
  | bufferUpdate2
  | jump
  | imageInitialization
  | bufferInitialization
deriving DecidableEq, Repr

/-- The type byte. -/
def PacketType.code : PacketType → UInt8
  | .vulkanApiCall => 2
  | .threadBarrier => 3
  | .imageUpdate => 4
  | .bufferUpdate => 5
  | .vulkanscApiCall => 6
  | .tensorUpdate => 7
  | .imageUpdate2 => 8
  | .bufferUpdate2 => 9
  | .jump => 10
  | .imageInitialization => 11
  | .bufferInitialization => 12

theorem PacketType.code_ne_zero (type : PacketType) : type.code ≠ 0 := by
  cases type <;> decide

/-- The members of `lava_file_writer` that the packets use.  `ops` are the
operations on the underlying `file_writer` so far.  `packetSize` is the position
that the pointer to the size word points to, and `pointers` are the positions and
widths of the values that the payload of the open packet has deferred. -/
structure PacketWriter where
  writer : Writer
  ops : List Op := []
  packet : Nat := 0
  packetType : Option PacketType := none
  packetOpen : Bool := false
  packetStart : Nat := 0
  packetSize : Nat := 0
  pointers : List (Nat × Nat) := []
  packetCheckpoints : List (Nat × Nat) := []
  checkpointChunkOffset : Nat := 0
deriving DecidableEq, Repr

def PacketWriter.new (chunkSize : Nat) : PacketWriter := { writer := Writer.new chunkSize }

/-- An operation of the underlying `file_writer`. -/
def perform (p : PacketWriter) (op : Op) : Option PacketWriter :=
  match op.run p.writer with
  | none => none
  | some (writer, _) => some { p with writer := writer, ops := p.ops ++ [op] }

/-- `end_packet`. -/
def endPacket (p : PacketWriter) : Option PacketWriter :=
  if p.packetOpen then
    let size := p.writer.uncompressedBytes - p.packetStart
    if size > 2 ^ 32 - 1 then
      none
    else
      match perform p (.poke p.packetSize (LittleEndian.encode 4 size)) with
      | none => none
      | some stored =>
          match perform stored .thaw with
          | none => none
          | some thawed =>
              some { thawed with
                packetOpen := false
                pointers := []
                packet := thawed.packet + 1 }
  else
    some p

/-- The packet checkpoint at the start of a chunk, in `begin_packet`. -/
def noteCheckpoint (p : PacketWriter) : PacketWriter :=
  let chunkOffset := p.writer.chunk.start
  if p.packetCheckpoints = [] ∨ chunkOffset > p.checkpointChunkOffset then
    { p with
      packetCheckpoints := p.packetCheckpoints ++ [(p.packet, p.writer.uncompressedBytes)]
      checkpointChunkOffset := chunkOffset }
  else
    p

/-- The writes of `begin_packet`: the type and the placeholder of the size. -/
def writePacketHeader (p : PacketWriter) (type : PacketType) : Option PacketWriter :=
  match perform p (.block [type.code]) with
  | none => none
  | some typed =>
      match perform typed (.later (LittleEndian.encode 4 0)) with
      | none => none
      | some sized =>
          some { sized with packetSize := laterPosition typed.writer, packetOpen := true }

/-- `begin_packet`. -/
def beginPacket (p : PacketWriter) (type : PacketType) : Option PacketWriter :=
  match endPacket p with
  | none => none
  | some ended =>
      writePacketHeader
        { noteCheckpoint ended with
          packetType := some type
          packetStart := ended.writer.uncompressedBytes }
        type

/-- What a caller does with a packet: the payload writes, deferred values, and
stores through the pointers of the open packet. -/
inductive Call where
  | beginPacket (type : PacketType)
  | endPacket
  | write (bytes : List UInt8)
  | writeLater (bytes : List UInt8)
  | store (position : Nat) (bytes : List UInt8)
deriving DecidableEq, Repr

/-- One call.  A payload belongs to an open packet, and a store goes through a
pointer that the same packet got. -/
def step (p : PacketWriter) : Call → Option PacketWriter
  | .beginPacket type => beginPacket p type
  | .endPacket => endPacket p
  | .write bytes => if p.packetOpen then perform p (.block bytes) else none
  | .writeLater bytes =>
      if p.packetOpen then
        match perform p (.later bytes) with
        | none => none
        | some next =>
            some { next with
              pointers := (laterPosition p.writer, bytes.length) :: p.pointers }
      else
        none
  | .store position bytes =>
      if p.packetOpen ∧ (position, bytes.length) ∈ p.pointers then
        perform p (.poke position bytes)
      else
        none

/-! ## What the packets are -/

/-- A packet: its type and its payload. -/
structure Frame where
  type : PacketType
  payload : List UInt8
deriving DecidableEq, Repr

/-- The total length of a packet. -/
def Frame.size (frame : Frame) : Nat := 5 + frame.payload.length

/-- The bytes of a packet with a given size word. -/
def Frame.bytesWith (frame : Frame) (size : Nat) : List UInt8 :=
  [frame.type.code] ++ (LittleEndian.encode 4 size ++ frame.payload)

/-- The bytes of a packet. -/
def Frame.bytes (frame : Frame) : List UInt8 := frame.bytesWith frame.size

@[simp] theorem Frame.bytesWith_length (frame : Frame) (size : Nat) :
    (frame.bytesWith size).length = frame.size := by
  simp only [Frame.bytesWith, Frame.size, List.length_append, LittleEndian.encode_length,
    List.length_singleton]
  omega

/-- The bytes of a list of packets. -/
def framesBytes (frames : List Frame) : List UInt8 := (frames.map Frame.bytes).flatten

@[simp] theorem framesBytes_append (front back : List Frame) :
    framesBytes (front ++ back) = framesBytes front ++ framesBytes back := by
  simp [framesBytes]

/-- A list of finished packets and at most one open one. -/
structure Draft where
  finished : List Frame := []
  current : Option Frame := none
deriving DecidableEq, Repr

/-- The open packet is finished, if there is one. -/
def Draft.close (draft : Draft) : Draft :=
  { finished := draft.finished ++ draft.current.toList, current := none }

/-- The stream position of the payload of the open packet. -/
def Draft.payloadStart (draft : Draft) : Nat := (framesBytes draft.finished).length + 5

/-- What a call means. -/
def Draft.apply (draft : Draft) : Call → Draft
  | .beginPacket type => { draft.close with current := some ⟨type, []⟩ }
  | .endPacket => draft.close
  | .write bytes | .writeLater bytes =>
      { draft with current := draft.current.map fun frame =>
          { frame with payload := frame.payload ++ bytes } }
  | .store position bytes =>
      { draft with current := draft.current.map fun frame =>
          { frame with
            payload := overwrite frame.payload (position - draft.payloadStart) bytes } }

/-- The packets that a sequence of calls writes. -/
def draftOf (calls : List Call) : Draft := calls.foldl Draft.apply {}

/-- The stream of a draft.  The size of the open packet is not known yet. -/
def Draft.bytes (draft : Draft) : List UInt8 :=
  framesBytes draft.finished ++
    match draft.current with
    | none => []
    | some frame => frame.bytesWith 0

/-! ## The stream behind the calls -/

/-- What a writer with a draft keeps. -/
structure Writes (chunkSize : Nat) (draft : Draft) (p : PacketWriter) : Prop where
  produced : ∃ closed, produce (Writer.new chunkSize) p.ops = some (p.writer, closed)
  stream : streamOf p.ops = draft.bytes
  small : ∀ frame ∈ draft.finished, frame.size < 2 ^ 32
  packet : p.packet = draft.finished.length
  packetOpen : p.packetOpen = draft.current.isSome
  start : ∀ frame, draft.current = some frame →
    p.packetStart = (framesBytes draft.finished).length ∧
      p.packetSize = p.packetStart + 1 ∧ p.packetType = some frame.type
  pinned : p.packetOpen = true → p.writer.holding = true ∧ p.writer.Pins p.packetSize 4 ∧
    ∀ pointer ∈ p.pointers, p.writer.Pins pointer.1 pointer.2 ∧
      draft.payloadStart ≤ pointer.1 ∧ pointer.1 + pointer.2 ≤ (streamOf p.ops).length
  released : p.packetOpen = false → p.writer.held = [] ∧ p.pointers = []

section

variable {chunkSize : Nat} {draft : Draft} {p next : PacketWriter}

theorem perform_eq_some_iff {op : Op} :
    perform p op = some next ↔ ∃ writer handed, op.run p.writer = some (writer, handed) ∧
      next = { p with writer := writer, ops := p.ops ++ [op] } := by
  unfold perform
  cases hrun : op.run p.writer with
  | none => simp
  | some result =>
      obtain ⟨writer, handed⟩ := result
      simp [eq_comm]

theorem streamOf_snoc (ops : List Op) (op : Op) :
    streamOf (ops ++ [op]) = op.effect (streamOf ops) := by
  simp [streamOf]

/-- The chunks behind an operation. -/
theorem Writes.produced_snoc (hwrites : Writes chunkSize draft p) {op : Op}
    {writer : Writer} {handed : Handed} (hrun : op.run p.writer = some (writer, handed)) :
    ∃ closed, produce (Writer.new chunkSize) (p.ops ++ [op]) = some (writer, closed) := by
  obtain ⟨closed, hclosed⟩ := hwrites.produced
  exact ⟨_, produce_snoc hclosed hrun⟩

theorem Writes.uncompressedBytes (hwrites : Writes chunkSize draft p) :
    p.writer.uncompressedBytes = draft.bytes.length := by
  obtain ⟨closed, hclosed⟩ := hwrites.produced
  rw [produce_uncompressedBytes hclosed, hwrites.stream]

/-- What the open packet has come to so far. -/
theorem Writes.open_size (hwrites : Writes chunkSize draft p) {frame : Frame}
    (hframe : draft.current = some frame) :
    p.writer.uncompressedBytes - p.packetStart = frame.size := by
  obtain ⟨hstart, -⟩ := hwrites.start frame hframe
  rw [hwrites.uncompressedBytes, hstart]
  simp [Draft.bytes, hframe]

theorem Draft.close_of_none (hnone : draft.current = none) : draft.close = draft := by
  cases draft
  simp_all [Draft.close]

/-- **The end of a packet.**  The size word is still in a chunk that has not been
handed over, so that `end_packet` stores the size of the packet, unless that does
not fit the word. -/
theorem Writes.ends (hwrites : Writes chunkSize draft p)
    (hsize : ∀ frame, draft.current = some frame → frame.size < 2 ^ 32) :
    ∃ next, endPacket p = some next ∧ Writes chunkSize draft.close next := by
  unfold endPacket
  cases hcurrent : draft.current with
  | none =>
      have hopen : p.packetOpen = false := by rw [hwrites.packetOpen, hcurrent]; rfl
      rw [hopen, Draft.close_of_none hcurrent]
      exact ⟨p, rfl, hwrites⟩
  | some frame =>
      have hopen : p.packetOpen = true := by rw [hwrites.packetOpen, hcurrent]; rfl
      have hfits := hsize frame hcurrent
      obtain ⟨hstart, hword, htype⟩ := hwrites.start frame hcurrent
      obtain ⟨hholding, hpins, -⟩ := hwrites.pinned hopen
      rw [if_pos hopen]
      simp only [hwrites.open_size hcurrent]
      rw [if_neg (by omega)]
      -- the store
      obtain ⟨stored, hstored⟩ : ∃ stored,
          poke p.writer p.packetSize (LittleEndian.encode 4 frame.size) = some stored :=
        poke_isSome (by rw [LittleEndian.encode_length]; exact hpins)
      have hpoke : (Op.poke p.packetSize (LittleEndian.encode 4 frame.size)).run p.writer =
          some (stored, .nothing) := by
        simp only [Op.run, hstored]
      have hfrozen := (Op.run_pins hholding (by simp) hpoke).1
      -- `thaw` hands the kept chunks over
      have hthaw : Op.thaw.run stored =
          some ({ stored with holding := false, held := [] }, .spliced stored.held) := by
        simp only [Op.run, thaw, hfrozen, if_true]
      obtain ⟨closed, hproduced⟩ := hwrites.produced_snoc hpoke
      simp only [perform, hpoke, hthaw]
      refine ⟨_, rfl, ⟨_, produce_snoc hproduced hthaw⟩, ?_, ?_, ?_, ?_, ?_, ?_, ?_⟩
      · rw [streamOf_snoc, streamOf_snoc, hwrites.stream]
        simp only [Op.effect, Draft.bytes, hcurrent, Draft.close, Option.toList_some,
          framesBytes_append, List.append_nil]
        have hleft : p.packetSize =
            (framesBytes draft.finished ++ [frame.type.code]).length := by
          rw [hword, hstart]
          simp
        rw [hleft, Frame.bytesWith, ← List.append_assoc, overwrite_middle (by simp)]
        simp [framesBytes, Frame.bytes, Frame.bytesWith]
      · intro other hother
        simp only [Draft.close, hcurrent, Option.toList_some, List.mem_append,
          List.mem_singleton] at hother
        rcases hother with hmem | rfl
        · exact hwrites.small other hmem
        · exact hfits
      · simp [Draft.close, hcurrent, hwrites.packet]
      · rfl
      · intro other hother
        cases hother
      · intro hnot
        cases hnot
      · exact fun _ => ⟨rfl, rfl⟩

/-- A packet whose size does not fit the word is refused. -/
theorem Writes.size_lt_of_ends (hwrites : Writes chunkSize draft p)
    (hend : endPacket p = some next) :
    ∀ frame, draft.current = some frame → frame.size < 2 ^ 32 := by
  intro frame hframe
  have hopen : p.packetOpen = true := by rw [hwrites.packetOpen, hframe]; rfl
  unfold endPacket at hend
  rw [if_pos hopen] at hend
  simp only [hwrites.open_size hframe] at hend
  split at hend
  · cases hend
  · omega

/-- **The start of a packet**, when no other is open. -/
theorem Writes.header (hwrites : Writes chunkSize draft p)
    (hnone : draft.current = none) (type : PacketType)
    (hstart : p.packetStart = p.writer.uncompressedBytes)
    (htype : p.packetType = some type) :
    ∃ next, writePacketHeader p type = some next ∧
      Writes chunkSize { draft with current := some ⟨type, []⟩ } next := by
  have hopen : p.packetOpen = false := by rw [hwrites.packetOpen, hnone]; rfl
  obtain ⟨⟨begun, closing⟩, hblock⟩ : ∃ result,
      (Op.block [type.code]).run p.writer = some result := ⟨_, by simp [Op.run]; rfl⟩
  obtain ⟨closed, hproduced⟩ := hwrites.produced_snoc hblock
  obtain ⟨⟨sized, handing⟩, hlater⟩ : ∃ result,
      (Op.later (LittleEndian.encode 4 0)).run begun = some result :=
    ⟨_, by simp [Op.run]; rfl⟩
  obtain ⟨hholding, hpins⟩ := later_pins hlater
  have hposition : laterPosition begun = p.packetStart + 1 := by
    unfold laterPosition
    rw [produce_uncompressedBytes hproduced, streamOf_snoc, hwrites.stream, hstart,
      hwrites.uncompressedBytes]
    simp [Op.effect]
  have hbytes : draft.bytes = framesBytes draft.finished := by
    simp [Draft.bytes, hnone]
  unfold writePacketHeader
  simp only [perform, hblock, hlater]
  refine ⟨_, rfl, ⟨_, produce_snoc hproduced hlater⟩, ?_, hwrites.small, hwrites.packet, rfl,
    ?_, ?_, ?_⟩
  · rw [streamOf_snoc, streamOf_snoc, hwrites.stream, hbytes]
    simp [Op.effect, Draft.bytes, Frame.bytesWith]
  · intro frame hframe
    cases hframe
    refine ⟨?_, hposition, htype⟩
    rw [hstart, hwrites.uncompressedBytes, hbytes]
  · intro _
    refine ⟨hholding, by simpa using hpins, fun pointer hpointer => ?_⟩
    rw [(hwrites.released hopen).2] at hpointer
    cases hpointer
  · intro hnot
    cases hnot

/-- **The start of a packet.**  One that is still open is ended first. -/
theorem Writes.begins (hwrites : Writes chunkSize draft p) (type : PacketType)
    (hsize : ∀ frame, draft.current = some frame → frame.size < 2 ^ 32) :
    ∃ next, beginPacket p type = some next ∧
      Writes chunkSize (draft.apply (.beginPacket type)) next := by
  obtain ⟨ended, hended, hclosed⟩ := hwrites.ends hsize
  unfold beginPacket
  simp only [hended]
  have hnoted : Writes chunkSize draft.close
      { noteCheckpoint ended with
        packetType := some type
        packetStart := ended.writer.uncompressedBytes } := by
    have hnever : ∀ frame, draft.close.current ≠ some frame := fun frame h => by cases h
    unfold noteCheckpoint
    simp only
    split
    all_goals
      exact ⟨hclosed.produced, hclosed.stream, hclosed.small, hclosed.packet,
        hclosed.packetOpen, fun frame hframe => absurd hframe (hnever frame), hclosed.pinned,
        hclosed.released⟩
  refine hnoted.header rfl type ?_ rfl
  unfold noteCheckpoint
  simp only
  split <;> rfl

/-- An operation inside of the open packet that extends its payload or stores
into it. -/
theorem Writes.payload (hwrites : Writes chunkSize draft p) {frame : Frame}
    (hframe : draft.current = some frame) {op : Op} (hthaw : op ≠ .thaw)
    {writer : Writer} {handed : Handed} (hrun : op.run p.writer = some (writer, handed))
    {payload : List UInt8} (hgrows : frame.payload.length ≤ payload.length)
    (heffect : op.effect draft.bytes =
      framesBytes draft.finished ++ Frame.bytesWith ⟨frame.type, payload⟩ 0) :
    Writes chunkSize { draft with current := some ⟨frame.type, payload⟩ }
      { p with writer := writer, ops := p.ops ++ [op] } := by
  have hopen : p.packetOpen = true := by rw [hwrites.packetOpen, hframe]; rfl
  obtain ⟨hholding, hword, hpointers⟩ := hwrites.pinned hopen
  obtain ⟨hfrozen, hkeeps⟩ := Op.run_pins hholding hthaw hrun
  have hstream : streamOf (p.ops ++ [op]) =
      framesBytes draft.finished ++ Frame.bytesWith ⟨frame.type, payload⟩ 0 := by
    rw [streamOf_snoc, hwrites.stream, heffect]
  refine ⟨hwrites.produced_snoc hrun, hstream, hwrites.small, hwrites.packet, ?_, ?_, ?_, ?_⟩
  · rw [hopen]
    rfl
  · intro other hother
    cases hother
    exact hwrites.start frame hframe
  · intro _
    refine ⟨hfrozen, hkeeps _ _ hword, fun pointer hpointer => ?_⟩
    obtain ⟨hpins, hlow, hhigh⟩ := hpointers pointer hpointer
    refine ⟨hkeeps _ _ hpins, hlow, hhigh.trans ?_⟩
    rw [hwrites.stream, hstream]
    simp only [Draft.bytes, hframe, List.length_append, Frame.bytesWith_length, Frame.size]
    omega
  · intro hnot
    rw [hopen] at hnot
    cases hnot

/-- A pointer to bytes that are filled in later is one into the open packet. -/
theorem Writes.writesLater (hwrites : Writes chunkSize draft p) (hopen : p.packetOpen = true)
    {bytes : List UInt8} {writer : Writer} {handed : Handed}
    (hrun : (Op.later bytes).run p.writer = some (writer, handed)) :
    Writes chunkSize (draft.apply (.writeLater bytes))
      { p with
        writer := writer
        ops := p.ops ++ [.later bytes]
        pointers := (laterPosition p.writer, bytes.length) :: p.pointers } := by
  have hposition := hwrites.uncompressedBytes
  have hpins := (later_pins hrun).2
  rw [hwrites.packetOpen, Option.isSome_iff_exists] at hopen
  obtain ⟨frame, hframe⟩ := hopen
  have hwritten : Writes chunkSize (draft.apply (.writeLater bytes))
      { p with writer := writer, ops := p.ops ++ [.later bytes] } := by
    simp only [Draft.apply, hframe, Option.map_some]
    refine hwrites.payload hframe (by simp) hrun (by simp) ?_
    simp [Op.effect, Draft.bytes, hframe, Frame.bytesWith]
  refine ⟨hwritten.produced, hwritten.stream, hwritten.small, hwritten.packet,
    hwritten.packetOpen, hwritten.start, fun hstill => ?_, fun hnot => ?_⟩
  · obtain ⟨hholding, hword, hpointers⟩ := hwritten.pinned hstill
    refine ⟨hholding, hword, fun pointer hpointer => ?_⟩
    rcases List.mem_cons.mp hpointer with rfl | hmem
    · -- the new pointer is the end of the stream so far
      unfold laterPosition at hpins ⊢
      refine ⟨hpins, ?_, ?_⟩
      · rw [hposition]
        simp only [Draft.bytes, hframe, Draft.payloadStart, Draft.apply,
          List.length_append, Frame.bytesWith_length, Frame.size]
        omega
      · rw [hposition, hwritten.stream]
        simp only [Draft.bytes, hframe, Draft.apply, Option.map_some,
          List.length_append, Frame.bytesWith_length, Frame.size]
        omega
    · exact hpointers pointer hmem
  · rw [hwritten.packetOpen] at hnot
    simp [Draft.apply, hframe] at hnot

/-- A store through a pointer changes the payload of the open packet only. -/
theorem Writes.stores (hwrites : Writes chunkSize draft p) (hopen : p.packetOpen = true)
    {position : Nat} {bytes : List UInt8} (hmem : (position, bytes.length) ∈ p.pointers)
    {writer : Writer} {handed : Handed}
    (hrun : (Op.poke position bytes).run p.writer = some (writer, handed)) :
    Writes chunkSize (draft.apply (.store position bytes))
      { p with writer := writer, ops := p.ops ++ [.poke position bytes] } := by
  obtain ⟨-, -, hpointers⟩ := hwrites.pinned hopen
  obtain ⟨-, hlow, hhigh⟩ := hpointers _ hmem
  rw [hwrites.packetOpen, Option.isSome_iff_exists] at hopen
  obtain ⟨frame, hframe⟩ := hopen
  rw [hwrites.stream] at hhigh
  simp only [Draft.bytes, hframe, Draft.payloadStart, List.length_append,
    Frame.bytesWith_length, Frame.size] at hlow hhigh
  simp only [Draft.apply, hframe, Option.map_some]
  have hinside : position - draft.payloadStart + bytes.length ≤ frame.payload.length := by
    unfold Draft.payloadStart
    omega
  refine hwrites.payload hframe (by simp) hrun (by rw [overwrite_length hinside]) ?_
  -- behind the finished packets, the type and the size word
  simp only [Op.effect, Draft.bytes, hframe, Frame.bytesWith]
  rw [overwrite_append_right (by omega), overwrite_append_right (by simp; omega),
    overwrite_append_right (by simp; omega)]
  have hshift : position - (framesBytes draft.finished).length -
        [frame.type.code].length - (LittleEndian.encode 4 0).length =
      position - draft.payloadStart := by
    simp only [List.length_singleton, LittleEndian.encode_length, Draft.payloadStart]
    omega
  rw [hshift]

/-- **One call** does to the stream what it does to the draft. -/
theorem step_refines {call : Call} (hwrites : Writes chunkSize draft p)
    (hstep : step p call = some next) : Writes chunkSize (draft.apply call) next := by
  cases call with
  | beginPacket type =>
      have hsize : ∀ frame, draft.current = some frame → frame.size < 2 ^ 32 := by
        simp only [step, beginPacket] at hstep
        split at hstep
        · cases hstep
        · case _ ended hended => exact hwrites.size_lt_of_ends hended
      obtain ⟨begun, hbegun, hdraft⟩ := hwrites.begins type hsize
      cases hbegun.symm.trans hstep
      exact hdraft
  | endPacket =>
      obtain ⟨ended, hended, hdraft⟩ := hwrites.ends (hwrites.size_lt_of_ends hstep)
      cases hended.symm.trans hstep
      exact hdraft
  | write bytes =>
      simp only [step] at hstep
      split at hstep
      · case _ hopen =>
          obtain ⟨writer, handed, hrun, rfl⟩ := perform_eq_some_iff.mp hstep
          rw [hwrites.packetOpen, Option.isSome_iff_exists] at hopen
          obtain ⟨frame, hframe⟩ := hopen
          simp only [Draft.apply, hframe, Option.map_some]
          refine hwrites.payload hframe (by simp) hrun (by simp) ?_
          simp [Op.effect, Draft.bytes, hframe, Frame.bytesWith]
      · cases hstep
  | writeLater bytes =>
      simp only [step] at hstep
      split at hstep
      · case _ hopen =>
          split at hstep
          · cases hstep
          · case _ performed hperformed =>
              cases hstep
              obtain ⟨writer, handed, hrun, rfl⟩ := perform_eq_some_iff.mp hperformed
              exact hwrites.writesLater hopen hrun
      · cases hstep
  | store position bytes =>
      simp only [step] at hstep
      split at hstep
      · case _ hvalid =>
          obtain ⟨hopen, hmem⟩ := hvalid
          obtain ⟨writer, handed, hrun, rfl⟩ := perform_eq_some_iff.mp hstep
          exact hwrites.stores hopen hmem hrun
      · cases hstep

end

/-- **A sequence of calls** writes the packets of its draft. -/
theorem exec_refines {chunkSize : Nat} {calls : List Call} {p : PacketWriter}
    (hexec : exec step (PacketWriter.new chunkSize) calls = some p) :
    Writes chunkSize (draftOf calls) p := by
  have hinit : Writes chunkSize (draftOf []) (PacketWriter.new chunkSize) :=
    ⟨⟨[], rfl⟩, rfl, (by simp [draftOf]), rfl, rfl, (fun frame hframe => by cases hframe),
      (fun hopen => by cases hopen), fun _ => ⟨rfl, rfl⟩⟩
  have hsnoc : ∀ trace call, draftOf (trace ++ [call]) = (draftOf trace).apply call :=
    fun trace call => by simp [draftOf]
  have hkeeps : ∀ trace p call next, Writes chunkSize (draftOf trace) p → True →
      step p call = some next → Writes chunkSize (draftOf (trace ++ [call])) next := by
    intro trace p call next hwrites _ hstep
    rw [hsnoc]
    exact step_refines hwrites hstep
  simpa using exec_trace_invariant hkeeps hinit (along_true step _ calls) hexec

end Packets
end Lavatube
