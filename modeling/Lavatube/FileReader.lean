import Mathlib
import Lavatube.Container
import Lavatube.Lib.Transition

/-!
# The streaming reader

One thread of replay: the decompressor thread, which appends chunk after chunk to
the uncompressed buffer, and the consumer, which walks through it packet by
packet with `lava_file_reader::step` and the read functions of `file_reader`.

The two threads share `write_position`, `done_decompressing` and
`needed_write_position`.  A step of the model is what happens between two accesses
to them: publishing a chunk and storing the flag behind it are separate steps of
the decompressor, and every read of the consumer waits in `check_space` on its own,
so that `read_patch`, `read_string` and `step` are sequences of steps.

A failed assertion and an `ABORT` end in `Pc.aborted`.  Memory that has not been
decompressed is zero.

* `Ordered` — the order of the positions that `self_test` asserts.
* `positions_ordered_iff` — runs keep it exactly while no step skips ahead.
-/

namespace Lavatube
namespace FileReader

open Container Transition

/-- The settings of a replay. -/
structure Config where
  /-- `multithreaded_read`.  False is a reader that decompresses by itself from the beginning;
  `disable_multithreaded_read`, which nothing calls, stores `done_decompressing` in a running one,
  and is left out. -/
  multithreadedRead : Bool := true
  /-- `p__preload`, in MiB -/
  preload : Nat := 128
  /-- `p__allow_stalls` -/
  allowStalls : Bool := true
  pageSize : Nat := 4096
deriving DecidableEq, Repr

/-- Where the consumer stands: between two calls, at the top of `step` behind
`complete_packet`, or in a read that waits in `check_space`. -/
inductive Pc where
  | idle
  | entered
  | packetType
  | packetSize (type : UInt8)
  | value (width : Nat)
  | array (size : Nat)
  | patchOffset (maxsize position : Nat)
  | patchSize (maxsize position offset : Nat)
  | patchBytes (maxsize position offset size : Nat)
  | stringLength
  | aborted
deriving DecidableEq, Repr

/-- The number of bytes that `check_space` was called with. -/
def Pc.request : Pc → Option Nat
  | .idle | .entered | .aborted => none
  | .packetType => some 1
  | .packetSize _ => some 4
  | .value width => some width
  | .array size => some size
  | .patchOffset _ _ => some 4
  | .patchSize _ _ _ => some 4
  | .patchBytes _ _ _ size => some size
  | .stringLength => some 2

/-- Both threads.  `file` are the members that only the decompressor writes, with
`write_position` among them; `storing` while it has published a chunk and not yet
come to the end of `decompress_chunk`.  `checkpointPosition` is `none` for
`UINT64_MAX`; `waiting` is the write position that `check_space` has seen before
it went to sleep. -/
structure State where
  file : Container.Reader
  storing : Bool := false
  doneDecompressing : Bool := false
  preloadActivated : Bool := true
  neededWritePosition : Nat := 0
  readPosition : Nat := 0
  checkpointPosition : Option Nat := some 0
  freedPosition : Nat := 0
  packetOpen : Bool := false
  packetStart : Nat := 0
  packetEnd : Nat := 0
  packetSize : Nat := 0
  packetType : UInt8 := 255
  packet : Nat := 0
  terminated : Bool := false
  waiting : Option Nat := none
  pc : Pc := .idle
deriving DecidableEq, Repr

/-- A reader on an opened file. -/
def State.init (file : Container.Reader) (preloadActive : Bool) : State :=
  { file := file, preloadActivated := preloadActive }

/-- `write_position`. -/
def State.writePosition (s : State) : Nat := s.file.writePosition

/-- `write_position - read_position`, in `uint64_t`. -/
def State.available (s : State) : Nat :=
  (s.writePosition + 2 ^ 64 - s.readPosition) % 2 ^ 64

/-- The bytes at `read_position`. -/
def State.bytes (s : State) (size : Nat) : List UInt8 :=
  (s.file.output.drop s.readPosition).takeD size 0

def State.abort (s : State) : State := { s with pc := .aborted }

/-- `done`. -/
def State.done (s : State) : Bool := s.doneDecompressing && s.available = 0

/-- `complete_packet`. -/
def completePacket (s : State) : State :=
  if s.packetOpen then
    if s.readPosition > s.packetEnd then
      s.abort
    else
      { s with
        readPosition := s.packetEnd
        packetOpen := false
        packet := s.packet + 1 }
  else
    s

/-- `set_checkpoint`. -/
def setCheckpoint (s : State) : State :=
  { s with checkpointPosition := some s.readPosition }

/-- A position or a size with the bits of `page_mask`. -/
def pageAligned (config : Config) (position : Nat) : Nat :=
  position / config.pageSize * config.pageSize

/-- `release_checkpoint`.  The buffer starts at a page boundary. -/
def releaseCheckpoint (config : Config) (s : State) : State :=
  match s.checkpointPosition with
  | none => s
  | some checkpoint =>
      if checkpoint ≥ s.freedPosition then
        let start := pageAligned config s.freedPosition
        let size := pageAligned config (checkpoint - s.freedPosition)
        if size > s.file.totalUncompressed then
          s.abort
        else if size > config.pageSize then
          if start + size ≤ checkpoint then
            { s with freedPosition := start + size, checkpointPosition := none }
          else
            s.abort
        else
          { s with checkpointPosition := none }
      else
        s.abort

/-- What the function that waited in `check_space` does with the bytes it has
copied, up to its next wait or its end. -/
def advance (s : State) (bytes : List UInt8) : State :=
  match s.pc with
  | .idle | .entered | .aborted => s
  | .value _ | .array _ => { s with pc := .idle }
  | .packetType =>
      let type := bytes.headD 0
      if type ≠ 0 then { s with pc := .packetSize type } else s.abort
  | .packetSize type =>
      let size := LittleEndian.decode bytes
      if size < 5 then
        s.abort
      else
        { s with
          packetSize := size
          packetEnd := s.packetStart + size
          packetType := type
          packetOpen := true
          pc := .idle }
  | .patchOffset maxsize position =>
      let offset := LittleEndian.decode bytes
      if maxsize = 0 ∨ position + offset ≤ maxsize then
        { s with pc := .patchSize maxsize (position + offset) offset }
      else
        s.abort
  | .patchSize maxsize position offset =>
      { s with pc := .patchBytes maxsize position offset (LittleEndian.decode bytes) }
  | .patchBytes maxsize position offset size =>
      if maxsize = 0 ∨ position + size ≤ maxsize then
        if offset = 0 ∧ size = 0 then { s with pc := .idle }
        else { s with pc := .patchOffset maxsize (position + size) }
      else
        s.abort
  | .stringLength =>
      let length := LittleEndian.decode bytes
      if length > 0 then { s with pc := .array length } else { s with pc := .idle }

/-- The calls of the consumer. -/
inductive Call where
  | step
  | completePacket
  | setCheckpoint
  | releaseCheckpoint
  | readValue (width : Nat)
  | readArray (size : Nat)
  | readPatch (maxsize : Nat)
  | readString
deriving DecidableEq, Repr

/-- A call, up to its first wait. -/
def start (config : Config) (s : State) : Call → State
  | .step =>
      let completed := completePacket s
      if completed.pc = .aborted then completed else { completed with pc := .entered }
  | .completePacket => completePacket s
  | .setCheckpoint => setCheckpoint s
  | .releaseCheckpoint => releaseCheckpoint config s
  | .readValue width => { s with pc := .value width }
  | .readArray size => { s with pc := .array (size % 2 ^ 32) }
  | .readPatch maxsize => { s with pc := .patchOffset maxsize 0 }
  | .readString => { s with pc := .stringLength }

/-- The second half of the entry of `step`: `stop` is what `stop_requested`
returns. -/
def poll (config : Config) (s : State) (stop : Bool) : State :=
  if stop || s.done then
    { s with terminated := true, pc := .idle }
  else
    let released := releaseCheckpoint config s
    if released.pc = .aborted then released
    else { released with packetStart := released.readPosition, pc := .packetType }

/-- The test in the inner loop of `decompressor`. -/
def throttled (config : Config) (s : State) : Bool :=
  let active := if s.preloadActivated then config.preload * 1024 * 1024 else 0
  let preloadSize := if active > 0 then active else s.file.lastChunkSize
  preloadSize > 0 ∧ s.writePosition > s.readPosition + preloadSize ∧
    s.writePosition ≥ s.neededWritePosition

section

variable (codecs : Codecs) (config : Config)

/-- A round of the loop of `decompressor`, until the chunk is published. -/
def decompress (s : State) : Option State :=
  if config.multithreadedRead ∧ s.storing = false ∧ s.doneDecompressing = false ∧
      throttled config s = false then
    match decompressChunk codecs s.file with
    | none => none
    | some file => some { s with file := file, storing := true }
  else
    none

/-- The end of `decompress_chunk`. -/
def storeDone (s : State) : Option State :=
  if s.storing then
    some { s with
      storing := false
      doneDecompressing := s.doneDecompressing || s.file.doneDecompressing }
  else
    none

/-- The consumer goes to sleep until `write_position` changes; without the
decompressor thread it decompresses the next chunk itself. -/
def waitForData (s : State) : Option State :=
  if config.multithreadedRead then
    some s
  else
    match decompressChunk codecs s.file with
    | none => none
    | some file =>
        some { s with
          file := file
          doneDecompressing := s.doneDecompressing || file.doneDecompressing }

/-- The consumer sleeps in `check_space`. -/
def State.asleep (s : State) : Bool :=
  config.multithreadedRead && s.waiting = some s.writePosition

/-- The consumer has slept although stalls are not allowed. -/
def State.stalled (s : State) : Bool :=
  s.waiting.isSome && !config.allowStalls && s.preloadActivated && config.preload > 0

/-- A look of `check_space` at `write_position`, and what follows when the bytes
are there. -/
def consume (s : State) : Option State :=
  match s.pc.request with
  | none => none
  | some size =>
      if s.asleep config then
        none
      else if s.stalled config then
        some s.abort
      else if size ≤ s.available then
        some (advance
          { s with
            neededWritePosition := if s.waiting.isSome then 0 else s.neededWritePosition
            waiting := none
            readPosition := s.readPosition + size }
          (s.bytes size))
      else if s.writePosition + size < s.file.totalUncompressed then
        waitForData codecs config { s with
          neededWritePosition := s.readPosition + size
          waiting := some s.writePosition }
      else
        some s.abort

/-- The steps of the two threads. -/
inductive Label where
  | decompress
  | storeDone
  | call (call : Call)
  | poll (stop : Bool)
  | consume
deriving DecidableEq, Repr

/-- One step of either thread. -/
def step (s : State) : Label → Option State
  | .decompress => decompress codecs config s
  | .storeDone => storeDone s
  | .call call => if s.pc = .idle then some (start config s call) else none
  | .poll stop => if s.pc = .entered then some (poll config s stop) else none
  | .consume => consume codecs config s

end

/-! ## What a step can do -/

/-- What a look of `check_space` does that asks for `size` bytes. -/
inductive Consumed (codecs : Codecs) (config : Config) (s : State) (size : Nat) : State → Prop
  | stalled (hstalled : s.stalled config = true) : Consumed codecs config s size s.abort
  | outside (hmissing : s.available < size)
      (houtside : ¬ s.writePosition + size < s.file.totalUncompressed) :
      Consumed codecs config s size s.abort
  | served (hspace : size ≤ s.available) :
      Consumed codecs config s size (advance
        { s with
          neededWritePosition := if s.waiting.isSome then 0 else s.neededWritePosition
          waiting := none
          readPosition := s.readPosition + size }
        (s.bytes size))
  | slept (hallowed : s.stalled config = false) (hmissing : s.available < size)
      (hinside : s.writePosition + size < s.file.totalUncompressed)
      (hthread : config.multithreadedRead = true) :
      Consumed codecs config s size
        { s with
          neededWritePosition := s.readPosition + size
          waiting := some s.writePosition }
  | decompressed (hmissing : s.available < size)
      (hinside : s.writePosition + size < s.file.totalUncompressed)
      (hthread : config.multithreadedRead = false) {file : Container.Reader}
      (hchunk : decompressChunk codecs s.file = some file) :
      Consumed codecs config s size
        { s with
          neededWritePosition := s.readPosition + size
          waiting := some s.writePosition
          file := file
          doneDecompressing := s.doneDecompressing || file.doneDecompressing }

/-- What a step of either thread does. -/
inductive Stepped (codecs : Codecs) (config : Config) (s : State) : Label → State → Prop
  | decompress (hthread : config.multithreadedRead = true) (hstoring : s.storing = false)
      (hgoing : s.doneDecompressing = false) {file : Container.Reader}
      (hchunk : decompressChunk codecs s.file = some file) :
      Stepped codecs config s .decompress { s with file := file, storing := true }
  | storeDone (hstoring : s.storing = true) :
      Stepped codecs config s .storeDone
        { s with
          storing := false
          doneDecompressing := s.doneDecompressing || s.file.doneDecompressing }
  | call {call : Call} (hpc : s.pc = .idle) :
      Stepped codecs config s (.call call) (start config s call)
  | poll {stop : Bool} (hpc : s.pc = .entered) :
      Stepped codecs config s (.poll stop) (poll config s stop)
  | consume {size : Nat} {next : State} (hrequest : s.pc.request = some size)
      (hawake : s.asleep config = false) (hconsumed : Consumed codecs config s size next) :
      Stepped codecs config s .consume next

section

variable {codecs : Codecs} {config : Config} {s next : State}

theorem waitForData_consumed {size : Nat} (hallowed : s.stalled config = false)
    (hmissing : s.available < size)
    (hinside : s.writePosition + size < s.file.totalUncompressed)
    (hwait : waitForData codecs config { s with
      neededWritePosition := s.readPosition + size
      waiting := some s.writePosition } = some next) : Consumed codecs config s size next := by
  unfold waitForData at hwait
  split at hwait
  · case _ hthread =>
      cases hwait
      exact .slept hallowed hmissing hinside hthread
  · case _ hthread =>
      split at hwait
      · cases hwait
      · case _ file hchunk =>
          cases hwait
          exact .decompressed hmissing hinside (by simpa using hthread) hchunk

theorem consume_consumed (hconsume : consume codecs config s = some next) :
    ∃ size, s.pc.request = some size ∧ s.asleep config = false ∧
      Consumed codecs config s size next := by
  unfold consume at hconsume
  split at hconsume
  · cases hconsume
  · case _ size hrequest =>
      split at hconsume
      · cases hconsume
      · case _ hawake =>
          -- a stall comes first, then what is there already, then the wait for a chunk
          refine ⟨size, hrequest, by simpa using hawake, ?_⟩
          split at hconsume
          · case _ hstalled =>
              cases hconsume
              exact .stalled hstalled
          · case _ hallowed =>
              split at hconsume
              · case _ hspace =>
                  cases hconsume
                  exact .served hspace
              · case _ hmissing =>
                  rw [Nat.not_le] at hmissing
                  split at hconsume
                  · case _ hinside =>
                      exact waitForData_consumed (by simpa using hallowed) hmissing hinside
                        hconsume
                  · case _ houtside =>
                      cases hconsume
                      exact .outside hmissing houtside

/-- **What a step does**, for either thread. -/
theorem step_stepped {label : Label} (hstep : step codecs config s label = some next) :
    Stepped codecs config s label next := by
  cases label with
  | decompress =>
      simp only [step, decompress] at hstep
      split at hstep
      · case _ henabled =>
          split at hstep
          · cases hstep
          · case _ file hchunk =>
              cases hstep
              exact .decompress henabled.1 henabled.2.1 henabled.2.2.1 hchunk
      · cases hstep
  | storeDone =>
      simp only [step, storeDone, Option.ite_none_right_eq_some, Option.some.injEq] at hstep
      obtain ⟨hstoring, rfl⟩ := hstep
      exact .storeDone hstoring
  | call call =>
      simp only [step, Option.ite_none_right_eq_some, Option.some.injEq] at hstep
      obtain ⟨hpc, rfl⟩ := hstep
      exact .call hpc
  | poll stop =>
      simp only [step, Option.ite_none_right_eq_some, Option.some.injEq] at hstep
      obtain ⟨hpc, rfl⟩ := hstep
      exact .poll hpc
  | consume =>
      obtain ⟨size, hrequest, hawake, hconsumed⟩ := consume_consumed hstep
      exact .consume hrequest hawake hconsumed

end

/-! ## The order of the positions -/

/-- The chain of positions that `self_test` asserts. -/
structure Ordered (s : State) : Prop where
  freed_le_read : s.freedPosition ≤ s.readPosition
  read_le_write : s.readPosition ≤ s.writePosition
  write_le_total : s.writePosition ≤ s.file.totalUncompressed

/-- The chain with the checkpoint in it, for a stream of `total` bytes. -/
structure Inv (total : Nat) (s : State) : Prop where
  ordered : Ordered s
  checkpoint : ∀ position, s.checkpointPosition = some position →
    s.freedPosition ≤ position ∧ position ≤ s.readPosition
  total_eq : s.file.totalUncompressed = total

/-- `complete_packet` skips to a position that has not been decompressed. -/
def skipsAhead (s : State) : Label → Bool
  | .call .step | .call .completePacket => s.packetOpen && s.writePosition < s.packetEnd
  | _ => false

/-- The members that the order is about. -/
def State.positions (s : State) : Container.Reader × Nat × Option Nat × Nat :=
  (s.file, s.readPosition, s.checkpointPosition, s.freedPosition)

theorem Inv.congr {total : Nat} {s next : State} (hinv : Inv total s)
    (hsame : next.positions = s.positions) : Inv total next := by
  simp only [State.positions, Prod.mk.injEq] at hsame
  obtain ⟨hfile, hread, hcheckpoint, hfreed⟩ := hsame
  refine ⟨⟨?_, ?_, ?_⟩, fun position hposition => ?_, hfile ▸ hinv.total_eq⟩
  · rw [hread, hfreed]
    exact hinv.ordered.freed_le_read
  · rw [hread, State.writePosition, hfile]
    exact hinv.ordered.read_le_write
  · rw [State.writePosition, hfile]
    exact hinv.ordered.write_le_total
  · rw [hread, hfreed]
    exact hinv.checkpoint position (hcheckpoint ▸ hposition)

/-- What a read does with its bytes moves nothing. -/
@[simp] theorem advance_positions (s : State) (bytes : List UInt8) :
    (advance s bytes).positions = s.positions := by
  cases hpc : s.pc <;> simp only [advance, hpc]
  all_goals repeat' split
  all_goals rfl

section

variable {codecs : Codecs} {config : Config} {total : Nat} {s next : State}

/-- A chunk is as long as its header says. -/
theorem decompressBody_length {reader : Container.Reader} {body bytes : List UInt8}
    {compressedSize uncompressedSize : Nat}
    (hbody : decompressBody codecs reader body compressedSize uncompressedSize =
      some bytes) : bytes.length = uncompressedSize := by
  unfold decompressBody at hbody
  split at hbody
  · simp only at hbody
    split at hbody
    · split at hbody
      · cases hbody
      · cases hbody
        simp
    · cases hbody
  · split at hbody
    · cases hbody
    · split at hbody
      · case _ hlength =>
          cases hbody
          exact hlength
      · cases hbody
  · split at hbody
    · case _ hlength =>
        cases hbody
        simpa using hlength
    · cases hbody

/-- **What `decompress_chunk` does**: it publishes the bytes of a chunk that fits in, and
looks whether it has come to the end or to the boundary. -/
theorem decompressChunk_members {reader after : Container.Reader}
    (hchunk : decompressChunk codecs reader = some after) :
    (∃ bytes, after.output = reader.output ++ bytes ∧
      reader.writePosition + bytes.length ≤ reader.totalUncompressed) ∧
      after.totalUncompressed = reader.totalUncompressed ∧
      after.uncompressedWanted = reader.uncompressedWanted ∧
      after.doneDecompressing = (reader.doneDecompressing ||
        decide (after.totalLeft = 0 ∨ after.writePosition ≥ after.uncompressedWanted)) := by
  unfold decompressChunk at hchunk
  split at hchunk
  · simp only at hchunk
    split at hchunk
    · case _ hfits =>
        split at hchunk
        · cases hchunk
        · case _ bytes hbody =>
            cases hchunk
            exact ⟨⟨bytes, rfl, decompressBody_length hbody ▸ hfits.2⟩, rfl, rfl, rfl⟩
    · cases hchunk
  · cases hchunk

/-- The write position only grows, and not beyond the size of the stream. -/
theorem decompressChunk_writePosition {reader after : Container.Reader}
    (hchunk : decompressChunk codecs reader = some after) :
    reader.writePosition ≤ after.writePosition ∧
      after.writePosition ≤ after.totalUncompressed ∧
      after.totalUncompressed = reader.totalUncompressed := by
  obtain ⟨⟨bytes, houtput, hroom⟩, htotal, -⟩ := decompressChunk_members hchunk
  have hwrite : after.writePosition = reader.writePosition + bytes.length := by
    rw [Reader.writePosition, houtput, List.length_append]
    rfl
  exact ⟨by omega, by omega, htotal⟩

/-- A published chunk keeps the order. -/
theorem Inv.decompressed (hinv : Inv total s) {file : Container.Reader}
    (hchunk : decompressChunk codecs s.file = some file)
    (hfile : next.file = file) (hread : next.readPosition = s.readPosition)
    (hcheckpoint : next.checkpointPosition = s.checkpointPosition)
    (hfreed : next.freedPosition = s.freedPosition) : Inv total next := by
  obtain ⟨hgrows, htotal, hsame⟩ := decompressChunk_writePosition hchunk
  refine ⟨⟨?_, ?_, ?_⟩, ?_, by rw [hfile, hsame, hinv.total_eq]⟩
  · rw [hread, hfreed]
    exact hinv.ordered.freed_le_read
  · rw [hread, State.writePosition, hfile]
    exact hinv.ordered.read_le_write.trans hgrows
  · rw [State.writePosition, hfile]
    exact htotal
  · rw [hread, hfreed, hcheckpoint]
    exact hinv.checkpoint

theorem pageAligned_le (config : Config) (position : Nat) :
    pageAligned config position ≤ position :=
  Nat.div_mul_le_self position config.pageSize

/-- Freeing keeps the order, fails no assertion of its own, and touches nothing
else. -/
theorem releaseCheckpoint_inv (config : Config) (hinv : Inv total s) :
    ∃ freed checkpoint, releaseCheckpoint config s =
        { s with freedPosition := freed, checkpointPosition := checkpoint } ∧
      Inv total (releaseCheckpoint config s) := by
  unfold releaseCheckpoint
  split
  · exact ⟨s.freedPosition, s.checkpointPosition, rfl, hinv⟩
  · case _ checkpoint hcheckpoint =>
      obtain ⟨hfreed, hread⟩ := hinv.checkpoint checkpoint hcheckpoint
      have hordered := hinv.ordered
      have hwrite := hordered.read_le_write
      have htotal := hordered.write_le_total
      have hstart := pageAligned_le config s.freedPosition
      have hsize := pageAligned_le config (checkpoint - s.freedPosition)
      simp only
      rw [if_pos hfreed, if_neg (by omega)]
      by_cases hlarge : pageAligned config (checkpoint - s.freedPosition) > config.pageSize
      · rw [if_pos hlarge, if_pos (by omega)]
        refine ⟨_, _, rfl, ⟨⟨?_, hwrite, htotal⟩, (fun position h => by cases h),
          hinv.total_eq⟩⟩
        simp only
        omega
      · rw [if_neg hlarge]
        exact ⟨_, _, rfl, ⟨⟨hordered.freed_le_read, hwrite, htotal⟩,
          (fun position h => by cases h), hinv.total_eq⟩⟩

/-- `complete_packet` keeps the order when it does not skip ahead, and breaks it
when it does. -/
theorem completePacket_inv (hinv : Inv total s) :
    ((s.packetOpen && s.writePosition < s.packetEnd) = false →
      Inv total (completePacket s)) ∧
    (Ordered (completePacket s) →
      (s.packetOpen && s.writePosition < s.packetEnd) = false) := by
  have hread := hinv.ordered.read_le_write
  have hfreed := hinv.ordered.freed_le_read
  unfold completePacket
  cases hopen : s.packetOpen with
  | false => exact ⟨fun _ => hinv, fun _ => rfl⟩
  | true =>
      rw [if_pos rfl]
      simp only [Bool.true_and, decide_eq_false_iff_not, Nat.not_lt]
      by_cases hover : s.readPosition > s.packetEnd
      · rw [if_pos hover]
        exact ⟨fun _ => hinv.congr rfl, fun _ => by omega⟩
      · rw [if_neg hover]
        refine ⟨fun hskip => ?_, fun hordered => hordered.read_le_write⟩
        refine ⟨⟨?_, hskip, hinv.ordered.write_le_total⟩, fun position hposition => ?_,
          hinv.total_eq⟩
        · simp only
          omega
        · have := hinv.checkpoint position hposition
          simp only
          omega

/-- The unsigned difference does not wrap. -/
theorem Ordered.available (hordered : Ordered s) (htotal : s.file.totalUncompressed < 2 ^ 64) :
    s.available = s.writePosition - s.readPosition := by
  have hread := hordered.read_le_write
  have hwrite := hordered.write_le_total
  unfold State.available
  omega

/-- A call keeps the order when it does not skip ahead. -/
theorem start_inv (hinv : Inv total s) {call : Call}
    (hskip : skipsAhead s (.call call) = false) : Inv total (start config s call) := by
  cases call with
  | step =>
      have hcompleted := (completePacket_inv hinv).1 hskip
      simp only [start]
      split
      · exact hcompleted
      · exact hcompleted.congr rfl
  | completePacket => exact (completePacket_inv hinv).1 hskip
  | setCheckpoint =>
      refine ⟨?_, fun position hposition => ?_, hinv.total_eq⟩
      · exact ⟨hinv.ordered.freed_le_read, hinv.ordered.read_le_write,
          hinv.ordered.write_le_total⟩
      · cases hposition
        exact ⟨hinv.ordered.freed_le_read, le_rfl⟩
  | releaseCheckpoint =>
      obtain ⟨-, -, -, hreleased⟩ := releaseCheckpoint_inv config hinv
      exact hreleased
  | readValue width => exact hinv.congr rfl
  | readArray size => exact hinv.congr rfl
  | readPatch maxsize => exact hinv.congr rfl
  | readString => exact hinv.congr rfl

theorem poll_inv (hinv : Inv total s) (stop : Bool) : Inv total (poll config s stop) := by
  unfold poll
  split
  · exact hinv.congr rfl
  · obtain ⟨-, -, -, hreleased⟩ := releaseCheckpoint_inv config hinv
    simp only
    split
    · exact hreleased
    · exact hreleased.congr rfl

/-- A read that was let through stays in front of the write position. -/
theorem Consumed.inv {size : Nat} (hconsumed : Consumed codecs config s size next)
    (hinv : Inv total s) (htotal : total < 2 ^ 64) : Inv total next := by
  have hordered := hinv.ordered
  have havailable := hordered.available (hinv.total_eq ▸ htotal)
  have hread := hordered.read_le_write
  cases hconsumed with
  | stalled | outside | slept => exact hinv.congr rfl
  | served hspace =>
      refine Inv.congr ?_ (advance_positions _ _)
      refine ⟨⟨?_, ?_, hordered.write_le_total⟩, fun position hposition => ?_,
        hinv.total_eq⟩
      · exact hordered.freed_le_read.trans (Nat.le_add_right ..)
      · rw [havailable] at hspace
        have hroom : s.readPosition + size ≤ s.writePosition := by omega
        exact hroom
      · obtain ⟨hfreed, hle⟩ := hinv.checkpoint position hposition
        exact ⟨hfreed, hle.trans (Nat.le_add_right ..)⟩
  | decompressed _ _ _ hchunk => exact hinv.decompressed hchunk rfl rfl rfl rfl

/-- **One step of either thread** keeps the order when it does not skip ahead. -/
theorem step_inv {label : Label} (hinv : Inv total s) (htotal : total < 2 ^ 64)
    (hskip : skipsAhead s label = false) (hstep : step codecs config s label = some next) :
    Inv total next := by
  cases step_stepped hstep with
  | decompress _ _ _ hchunk => exact hinv.decompressed hchunk rfl rfl rfl rfl
  | storeDone => exact hinv.congr rfl
  | call => exact start_inv hinv hskip
  | poll => exact poll_inv hinv _
  | consume _ _ hconsumed => exact hconsumed.inv hinv htotal

/-- A step that skips ahead breaks the order. -/
theorem skipsAhead_eq_false {label : Label} (hinv : Inv total s)
    (hstep : step codecs config s label = some next) (hordered : Ordered next) :
    skipsAhead s label = false := by
  cases step_stepped hstep with
  | decompress | storeDone | poll | consume => rfl
  | @call call _ =>
      cases call with
      | step =>
          refine (completePacket_inv hinv).2 ?_
          simp only [start] at hordered
          split at hordered
          · exact hordered
          · exact ⟨hordered.freed_le_read, hordered.read_le_write,
              hordered.write_le_total⟩
      | completePacket => exact (completePacket_inv hinv).2 hordered
      | _ => rfl

/-- A reader that has just been opened. -/
theorem inv_init {file : List UInt8} {uncompressedSize uncompressedTarget : Nat}
    {reader : Container.Reader}
    (hinit : Container.init file uncompressedSize uncompressedTarget = some reader)
    (preloadActive : Bool) : Inv uncompressedSize (State.init reader preloadActive) := by
  have hreader : reader.output = [] ∧ reader.totalUncompressed = uncompressedSize := by
    unfold Container.init at hinit
    split at hinit
    · cases hinit
    · split at hinit
      · split at hinit
        · split at hinit
          · cases hinit
          · cases hinit
            exact ⟨rfl, rfl⟩
        · cases hinit
      · cases hinit
        exact ⟨rfl, rfl⟩
  have hwrite : (State.init reader preloadActive).writePosition = 0 := by
    simp [State.writePosition, Reader.writePosition, State.init, hreader.1]
  refine ⟨⟨le_rfl, Nat.zero_le _, by rw [hwrite]; exact Nat.zero_le _⟩, ?_, hreader.2⟩
  intro position hposition
  cases hposition
  exact ⟨le_rfl, le_rfl⟩

end

/-- What the order is for: the unsigned difference is the number of bytes that
are there, and a read that is let through stays in front of the write position. -/
def ReadsInside (s : State) : Prop :=
  s.available = s.writePosition - s.readPosition ∧
    ∀ size, size ≤ s.available → s.readPosition + size ≤ s.writePosition

/-- **The positions of the streaming reader.**  In every run of the two threads
the positions are in order in every state, and reads stay in front of the write
position, exactly when no `complete_packet` skips to a position that has not been
decompressed yet. -/
theorem positions_ordered_iff (codecs : Codecs) (config : Config) (file : List UInt8)
    (uncompressedSize uncompressedTarget : Nat) (hsize : uncompressedSize < 2 ^ 64)
    (reader : Container.Reader)
    (hinit : Container.init file uncompressedSize uncompressedTarget = some reader)
    (preloadActive : Bool) (labels : List Label) (final : State)
    (hrun : exec (step codecs config) (State.init reader preloadActive) labels =
      some final) :
    (∀ k s, exec (step codecs config) (State.init reader preloadActive) (labels.take k) =
        some s → Ordered s ∧ ReadsInside s) ↔
      Along (step codecs config) (fun s label => skipsAhead s label = false)
        (State.init reader preloadActive) labels := by
  refine prefixes_iff_along (fun s hinv => ⟨hinv.ordered, ?_⟩)
    (fun s label next hinv hskip hstep => step_inv hinv hsize hskip hstep)
    (fun s label next hinv hstep hgood => skipsAhead_eq_false hinv hstep hgood.1)
    (inv_init hinit preloadActive) hrun
  have havailable := hinv.ordered.available (hinv.total_eq ▸ hsize)
  refine ⟨havailable, fun size hle => ?_⟩
  have := hinv.ordered.read_le_write
  omega

/-- A packet of nine bytes in two chunks. -/
def splitPacket : List Stored :=
  [⟨[3, 9, 0, 0, 0], List.replicate 16 0, by decide, stray_zeroes⟩,
    ⟨[1, 2, 3, 4], List.replicate 16 0, by decide, stray_zeroes⟩]

def splitPacketFile : List UInt8 :=
  fileBytes .lz4 (splitPacket.map (Stored.record literalCodecs .lz4))

/-- Both chunks are there before the packet is skipped. -/
def patientRun : List Label :=
  [.decompress, .storeDone, .call .step, .poll false, .consume, .consume,
    .call (.readValue 2), .decompress, .storeDone, .consume, .call .step, .poll false]

theorem positions_ordered_iff_patientRun :
    ∃ reader final, Container.init splitPacketFile 9 9 = some reader ∧
      exec (step literalCodecs {}) (State.init reader true) patientRun = some final ∧
      final.terminated = true ∧ Ordered final := by
  have hinit : (Container.init splitPacketFile 9 9).isSome = true := by decide
  have hrun : (exec (step literalCodecs {})
      (State.init ((Container.init splitPacketFile 9 9).get hinit) true)
      patientRun).isSome = true := by
    decide +revert
  refine ⟨_, _, (Option.some_get hinit).symm, (Option.some_get hrun).symm, by decide +revert,
    ?_⟩
  exact ((positions_ordered_iff literalCodecs {} splitPacketFile 9 9 (by norm_num) _
    (Option.some_get hinit).symm true patientRun _ (Option.some_get hrun).symm).mpr
    (by clear hrun; decide +revert) patientRun.length _ (Option.some_get hrun).symm).1

/-- The packet is skipped while its second chunk is still compressed. -/
def skippingRun : List Label :=
  [.decompress, .storeDone, .call .step, .poll false, .consume, .consume,
    .call .completePacket]

theorem complete_packet_outruns_decompressor :
    ∃ reader s, Container.init splitPacketFile 9 9 = some reader ∧
      exec (step literalCodecs {}) (State.init reader true) skippingRun = some s ∧
      s.readPosition = 9 ∧ s.writePosition = 5 ∧ s.available = 2 ^ 64 - 4 ∧
      ¬Ordered s :=
  ⟨_, _, rfl, rfl, rfl, rfl, by decide, fun h => absurd h.read_le_write (by decide)⟩

end FileReader
end Lavatube
