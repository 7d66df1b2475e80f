import Lavatube.FileWriter
import Lavatube.Lib.Transition

/-!
# The chunk pipeline of `file_writer`

The producer, the compressor thread and the serializer thread, and the two
queues between them.  Every critical section under `chunk_mutex` is one step,
and any interleaving of the steps is a run.

Both workers are launched by `set` in every mode.  The two mode flags decide
what the producer does with a chunk that `make_space` or `finalize` closes:
queue it for the compressor, or compress it on the spot and queue or write the
result.  Chunks that were kept back while the writer was frozen always go to the
compressor's queue, in one splice.

`compress` stands for `compress_chunk`, which `Container` defines.

* `produce` — the producer alone: the chunks it closes, in order.
* `Inv` — the file, the queues and the workers hold the closed chunks in order.
* `Inv.finished` — what the file holds when `finalize` has returned.
-/

namespace Lavatube
namespace Pipeline

open FileWriter Transition

/-- A compressed buffer as `compress_chunk` returns it: the two sizes of its
header and the compressed bytes. -/
structure Compressed where
  wasWritten : Nat
  wasRead : Nat
  body : List UInt8
deriving DecidableEq, Repr

/-- Where a worker thread stands: between two rounds, holding a buffer that it
has taken from its queue, or out of its loop. -/
inductive Worker (α : Type) where
  | idle
  | busy (item : α)
  | exited
deriving DecidableEq, Repr

/-- The buffer in the hands of a worker. -/
def Worker.items {α : Type} : Worker α → List α
  | .idle => []
  | .busy item => [item]
  | .exited => []

/-- How far `finalize` has come: not called, last chunk pushed, `done_feeding`
set, compressor joined and `done_compressing` set, returned. -/
inductive Phase where
  | running
  | pushed
  | fed
  | joined
  | finished
deriving DecidableEq, Repr

/-- The whole writer.  Both queues have the newest buffer in front; `file` is
what was written behind the file header. -/
structure State where
  writer : Writer
  multithreadedCompress : Bool
  multithreadedWrite : Bool
  uncompressed : List Chunk := []
  compressed : List Compressed := []
  compressor : Worker Chunk := .idle
  serializer : Worker Compressed := .idle
  doneFeeding : Bool := false
  doneCompressing : Bool := false
  compressedSizes : List Nat := []
  uncompressedSizes : List Nat := []
  file : List Compressed := []
  phase : Phase := .running
deriving DecidableEq, Repr

/-- A writer on which `set` has been called. -/
def State.init (chunkSize : Nat) (multithreadedCompress multithreadedWrite : Bool) :
    State :=
  { writer := Writer.new chunkSize
    multithreadedCompress := multithreadedCompress
    multithreadedWrite := multithreadedWrite }

section

variable (compress : Chunk → Compressed)

/-- `compress_chunk` as far as the shared state is concerned, followed by what
both its callers do with the result. -/
def packChunk (s : State) (chunk : Chunk) : State :=
  let packed := compress chunk
  { s with
    compressedSizes := s.compressedSizes ++ [packed.wasWritten]
    uncompressedSizes := s.uncompressedSizes ++ [packed.wasRead]
    compressed := if s.multithreadedWrite then packed :: s.compressed else s.compressed
    file := if s.multithreadedWrite then s.file else s.file ++ [packed] }

/-- A chunk closed by the producer while it is not holding chunks back. -/
def closeChunk (s : State) (chunk : Chunk) : State :=
  if s.multithreadedCompress then { s with uncompressed := chunk :: s.uncompressed }
  else packChunk compress s chunk

/-- What becomes of the chunks an operation hands over. -/
def deliver (s : State) : Handed → State
  | .nothing => s
  | .closed chunk => closeChunk compress s chunk
  | .spliced chunks => { s with uncompressed := chunks ++ s.uncompressed }

/-- The steps of the three threads. -/
inductive Label where
  | op (op : Op)
  | finalize
  | feedDone
  | joinCompressor
  | joinSerializer
  | compressorTake
  | compressorPut
  | compressorExit
  | serializerTake
  | serializerPut
  | serializerExit
deriving DecidableEq, Repr

/-- One operation of the producer. -/
def produceStep (s : State) (op : Op) : Option State :=
  if s.phase = .running then
    match op.run s.writer with
    | none => none
    | some (writer, handed) => some (deliver compress { s with writer := writer } handed)
  else
    none

/-- The first critical section of `finalize`; it asserts that no chunk is kept
back. -/
def finalize (s : State) : Option State :=
  if s.phase = .running ∧ s.writer.held = [] then
    some { closeChunk compress s s.writer.chunk with phase := .pushed }
  else
    none

/-- The critical section at the top of the loop of `compressor`.  An empty
buffer is dropped. -/
def compressorTake (s : State) : Option State :=
  match s.compressor, s.uncompressed.getLast? with
  | .idle, some chunk =>
      some { s with
        uncompressed := s.uncompressed.dropLast
        compressor := if chunk.bytes.length > 0 then .busy chunk else .idle }
  | _, _ => none

/-- The rest of the round of `compressor`. -/
def compressorPut (s : State) : Option State :=
  match s.compressor with
  | .busy chunk => some { packChunk compress s chunk with compressor := .idle }
  | _ => none

/-- The exit of `compressor`, tested when its queue is empty. -/
def compressorExit (s : State) : Option State :=
  if s.compressor = .idle ∧ s.uncompressed = [] ∧ s.doneFeeding then
    some { s with compressor := .exited }
  else
    none

/-- The critical section at the top of the loop of `serializer`.  A compressed
buffer has a header, so it is never empty. -/
def serializerTake (s : State) : Option State :=
  match s.serializer, s.compressed.getLast? with
  | .idle, some packed =>
      some { s with compressed := s.compressed.dropLast, serializer := .busy packed }
  | _, _ => none

/-- `write_chunk` by the serializer. -/
def serializerPut (s : State) : Option State :=
  match s.serializer with
  | .busy packed => some { s with file := s.file ++ [packed], serializer := .idle }
  | _ => none

/-- The exit of `serializer`. -/
def serializerExit (s : State) : Option State :=
  if s.serializer = .idle ∧ s.compressed = [] ∧ s.doneCompressing then
    some { s with serializer := .exited }
  else
    none

/-- One step of any thread. -/
def step (s : State) : Label → Option State
  | .op op => produceStep compress s op
  | .finalize => finalize compress s
  | .feedDone =>
      if s.phase = .pushed then some { s with phase := .fed, doneFeeding := true }
      else none
  | .joinCompressor =>
      if s.phase = .fed ∧ s.compressor = .exited then
        some { s with phase := .joined, doneCompressing := true }
      else
        none
  | .joinSerializer =>
      if s.phase = .joined ∧ s.serializer = .exited ∧ s.uncompressed = [] ∧
          s.compressed = [] then
        some { s with phase := .finished }
      else
        none
  | .compressorTake => compressorTake s
  | .compressorPut => compressorPut compress s
  | .compressorExit => compressorExit s
  | .serializerTake => serializerTake s
  | .serializerPut => serializerPut s
  | .serializerExit => serializerExit s

end

/-! ## What a step does -/

/-- The next state of every step, with what it has tested.  A queue has its oldest buffer at the
end. -/
inductive Moved (compress : Chunk → Compressed) (s : State) : Label → State → Prop
  | op {op : Op} {writer : Writer} {handed : Handed} (hphase : s.phase = .running)
      (hrun : op.run s.writer = some (writer, handed)) :
      Moved compress s (.op op) (deliver compress { s with writer := writer } handed)
  | finalize (hphase : s.phase = .running) (hheld : s.writer.held = []) :
      Moved compress s .finalize { closeChunk compress s s.writer.chunk with phase := .pushed }
  | feedDone (hphase : s.phase = .pushed) :
      Moved compress s .feedDone { s with phase := .fed, doneFeeding := true }
  | joinCompressor (hphase : s.phase = .fed) (hexited : s.compressor = .exited) :
      Moved compress s .joinCompressor { s with phase := .joined, doneCompressing := true }
  | joinSerializer (hphase : s.phase = .joined) (hexited : s.serializer = .exited)
      (huncompressed : s.uncompressed = []) (hcompressed : s.compressed = []) :
      Moved compress s .joinSerializer { s with phase := .finished }
  | compressorTake {chunk : Chunk} {rest : List Chunk} (hidle : s.compressor = .idle)
      (hqueue : s.uncompressed = rest ++ [chunk]) :
      Moved compress s .compressorTake { s with
        uncompressed := rest
        compressor := if chunk.bytes.length > 0 then .busy chunk else .idle }
  | compressorPut {chunk : Chunk} (hbusy : s.compressor = .busy chunk) :
      Moved compress s .compressorPut { packChunk compress s chunk with compressor := .idle }
  | compressorExit (hidle : s.compressor = .idle) (hempty : s.uncompressed = [])
      (hfed : s.doneFeeding = true) :
      Moved compress s .compressorExit { s with compressor := .exited }
  | serializerTake {item : Compressed} {rest : List Compressed} (hidle : s.serializer = .idle)
      (hqueue : s.compressed = rest ++ [item]) :
      Moved compress s .serializerTake { s with compressed := rest, serializer := .busy item }
  | serializerPut {item : Compressed} (hbusy : s.serializer = .busy item) :
      Moved compress s .serializerPut { s with file := s.file ++ [item], serializer := .idle }
  | serializerExit (hidle : s.serializer = .idle) (hempty : s.compressed = [])
      (hdone : s.doneCompressing = true) :
      Moved compress s .serializerExit { s with serializer := .exited }

/-- **What a step does**, said once: the proofs below split on `Moved` and unfold no step. -/
theorem step_moved {compress : Chunk → Compressed} {s next : State} {label : Label}
    (hstep : step compress s label = some next) : Moved compress s label next := by
  cases label with
  | op op =>
      simp only [step, produceStep] at hstep
      split at hstep
      · case _ hphase =>
          split at hstep <;> cases hstep
          case _ hrun => exact .op hphase hrun
      · cases hstep
  | finalize =>
      simp only [step, finalize] at hstep
      split at hstep <;> cases hstep
      case _ hphase => exact .finalize hphase.1 hphase.2
  | feedDone =>
      simp only [step] at hstep
      split at hstep <;> cases hstep
      case _ hphase => exact .feedDone hphase
  | joinCompressor =>
      simp only [step] at hstep
      split at hstep <;> cases hstep
      case _ hphase => exact .joinCompressor hphase.1 hphase.2
  | joinSerializer =>
      simp only [step] at hstep
      split at hstep <;> cases hstep
      case _ hphase => exact .joinSerializer hphase.1 hphase.2.1 hphase.2.2.1 hphase.2.2.2
  | compressorTake =>
      simp only [step, compressorTake] at hstep
      split at hstep <;> cases hstep
      case _ hidle hlast =>
        obtain ⟨rest, hqueue⟩ := List.getLast?_eq_some_iff.mp hlast
        rw [hqueue, List.dropLast_concat]
        exact .compressorTake hidle hqueue
  | compressorPut =>
      simp only [step, compressorPut] at hstep
      split at hstep <;> cases hstep
      case _ hbusy => exact .compressorPut hbusy
  | compressorExit =>
      simp only [step, compressorExit] at hstep
      split at hstep <;> cases hstep
      case _ hexit => exact .compressorExit hexit.1 hexit.2.1 hexit.2.2
  | serializerTake =>
      simp only [step, serializerTake] at hstep
      split at hstep <;> cases hstep
      case _ hidle hlast =>
        obtain ⟨rest, hqueue⟩ := List.getLast?_eq_some_iff.mp hlast
        rw [hqueue, List.dropLast_concat]
        exact .serializerTake hidle hqueue
  | serializerPut =>
      simp only [step, serializerPut] at hstep
      split at hstep <;> cases hstep
      case _ hbusy => exact .serializerPut hbusy
  | serializerExit =>
      simp only [step, serializerExit] at hstep
      split at hstep <;> cases hstep
      case _ hexit => exact .serializerExit hexit.1 hexit.2.1 hexit.2.2

/-- The operations among the steps. -/
def opsOf (labels : List Label) : List Op :=
  labels.filterMap fun label =>
    match label with
    | .op op => some op
    | _ => none

/-- The producer alone: the writer after a list of operations, and the chunks
it has handed over, oldest first. -/
def produce (w : Writer) : List Op → Option (Writer × List Chunk)
  | [] => some (w, [])
  | op :: ops =>
      match op.run w with
      | none => none
      | some (w', handed) =>
          match produce w' ops with
          | none => none
          | some (final, chunks) => some (final, handed.chunks.reverse ++ chunks)

/-- The stream that a list of operations writes. -/
def streamOf (ops : List Op) : List UInt8 := ops.foldl Op.effect []

/-! ## The producer alone -/

/-- The bytes of a list of chunks, oldest first. -/
def payload (chunks : List Chunk) : List UInt8 :=
  (chunks.map Chunk.bytes).flatten

@[simp] theorem payload_append (front back : List Chunk) :
    payload (front ++ back) = payload front ++ payload back := by
  simp [payload]

theorem payload_reverse (chunks : List Chunk) :
    payload chunks.reverse = content chunks := by
  induction chunks with
  | nil => rfl
  | cons chunk rest ih =>
      rw [List.reverse_cons, payload_append, ih]
      simp [payload]

theorem produce_snoc {w w' : Writer} {ops : List Op} {chunks : List Chunk} {op : Op}
    {next : Writer} {handed : Handed} (hops : produce w ops = some (w', chunks))
    (hop : op.run w' = some (next, handed)) :
    produce w (ops ++ [op]) = some (next, chunks ++ handed.chunks.reverse) := by
  induction ops generalizing w chunks with
  | nil =>
      cases hops
      simp [produce, hop]
  | cons first ops ih =>
      simp only [produce, List.cons_append] at hops ⊢
      split at hops
      · cases hops
      · case _ middle firstHanded hfirst =>
          split at hops
          · cases hops
          · case _ rest hrest =>
              cases hops
              simp [ih hrest]

/-- **The producer alone.**  The closed chunks and the pending bytes are the
stream of the operations. -/
theorem produce_spec {w w' : Writer} {ops : List Op} {chunks : List Chunk}
    {done : List UInt8} (hwf : w.WF done.length)
    (hops : produce w ops = some (w', chunks)) :
    w'.WF (done ++ payload chunks).length ∧
      done ++ payload chunks ++ w'.pending =
        ops.foldl Op.effect (done ++ w.pending) := by
  induction ops generalizing w chunks done with
  | nil =>
      cases hops
      simpa [payload] using hwf
  | cons op ops ih =>
      simp only [produce] at hops
      split at hops
      · cases hops
      · case _ middle handed hop =>
          obtain ⟨hmiddle, hstream⟩ := Op.run_spec hwf hop
          split at hops
          · cases hops
          · case _ rest hrest =>
              cases hops
              obtain ⟨hfinal, hbytes⟩ := ih hmiddle hrest
              simp only [payload_append, payload_reverse, List.foldl_cons]
              rw [← List.append_assoc]
              exact ⟨hfinal, by rw [hbytes, hstream]⟩

/-- The stream, once nothing is kept back. -/
theorem produce_stream {chunkSize : Nat} {w : Writer} {ops : List Op}
    {chunks : List Chunk}
    (hops : produce (Writer.new chunkSize) ops = some (w, chunks))
    (hheld : w.held = []) : payload (chunks ++ [w.chunk]) = streamOf ops := by
  have hwf : (Writer.new chunkSize).WF ([] : List UInt8).length := Writer.wf_new chunkSize
  have hspec := (produce_spec hwf hops).2
  simp only [List.nil_append, Writer.pending, hheld, content_cons, content_nil] at hspec
  rw [payload_append]
  simpa [payload, streamOf, Writer.new] using hspec

/-- The size that the writer counts is the size of the stream. -/
theorem produce_uncompressedBytes {chunkSize : Nat} {w : Writer} {ops : List Op}
    {chunks : List Chunk}
    (hops : produce (Writer.new chunkSize) ops = some (w, chunks)) :
    w.uncompressedBytes = (streamOf ops).length := by
  have hwf : (Writer.new chunkSize).WF ([] : List UInt8).length := Writer.wf_new chunkSize
  obtain ⟨hfinal, hstream⟩ := produce_spec hwf hops
  have hstream : payload chunks ++ w.pending = streamOf ops := by
    simpa [streamOf, Writer.new, Writer.pending] using hstream
  rw [← hfinal.linked.length, ← hstream]
  simp [Writer.pending]

/-- No chunk of a run is larger than the chunk size and the largest block. -/
theorem produce_bounded {limit : Nat} {w w' : Writer} {ops : List Op}
    {chunks : List Chunk} (hbounded : w.Bounded limit)
    (hsizes : ∀ op ∈ ops, op.size ≤ limit) (hops : produce w ops = some (w', chunks)) :
    w'.Bounded limit ∧ ∀ chunk ∈ chunks, chunk.bytes.length ≤ limit := by
  induction ops generalizing w chunks with
  | nil =>
      cases hops
      exact ⟨hbounded, by simp⟩
  | cons op ops ih =>
      simp only [produce] at hops
      split at hops
      · cases hops
      · case _ middle handed hop =>
          obtain ⟨hmiddle, hhanded⟩ :=
            Op.run_bounded hbounded (hsizes op (List.mem_cons_self ..)) hop
          split at hops
          · cases hops
          · case _ rest hrest =>
              cases hops
              obtain ⟨hfinal, hchunks⟩ := ih hmiddle
                (fun other hother => hsizes other (List.mem_cons_of_mem _ hother)) hrest
              refine ⟨hfinal, fun chunk hchunk => ?_⟩
              rcases List.mem_append.mp hchunk with hmem | hmem
              · exact hhanded chunk (List.mem_reverse.mp hmem)
              · exact hchunks chunk hmem

/-- The chunks that a writer closes, the last one included. -/
theorem produce_length_le {chunkSize limit : Nat} {w : Writer} {ops : List Op}
    {closed : List Chunk} (hchunkSize : chunkSize ≤ limit)
    (hsizes : ∀ op ∈ ops, op.size ≤ limit)
    (hops : produce (Writer.new chunkSize) ops = some (w, closed)) :
    ∀ chunk ∈ closed ++ [w.chunk], chunk.bytes.length ≤ limit := by
  obtain ⟨hbounded, hclosed⟩ :=
    produce_bounded (Writer.bounded_new hchunkSize) hsizes hops
  intro chunk hchunk
  rcases List.mem_append.mp hchunk with hmem | hmem
  · exact hclosed chunk hmem
  · rw [List.mem_singleton.mp hmem]
    exact hbounded.fits.trans hbounded.capacity

/-! ## The order of the chunks -/

/-- The chunk holds at least one byte. -/
def hasBytes (chunk : Chunk) : Bool := chunk.bytes.length > 0

theorem payload_filter (chunks : List Chunk) :
    payload (chunks.filter hasBytes) = payload chunks := by
  induction chunks with
  | nil => rfl
  | cons chunk rest ih =>
      rw [List.filter_cons]
      split
      · simpa [payload] using ih
      · case _ hempty =>
          have : chunk.bytes = [] := by simpa [hasBytes] using hempty
          simpa [payload, this] using ih

theorem payload_length (chunks : List Chunk) :
    (payload chunks).length = (chunks.map fun chunk => chunk.bytes.length).sum := by
  simp [payload, Function.comp_def]

/-- The non-empty chunks that have been compressed (`packed`) or wait for it,
oldest first. -/
def transit (packed : List Chunk) (s : State) : List Chunk :=
  (packed ++ s.compressor.items ++ s.uncompressed.reverse).filter hasBytes

/-- What the queues and the workers hold: `closed` are the chunks the producer
has closed so far, `packed` those that have been compressed since `init`, behind whose size
lists theirs are added.  No chunk is lost or doubled; while the run is `aligned` none
overtakes another. -/
structure Queued (compress : Chunk → Compressed) (aligned : Prop) (init : State)
    (closed packed : List Chunk) (s : State) : Prop where
  balance : (transit packed s).Perm (closed.filter hasBytes)
  order : aligned → transit packed s = closed.filter hasBytes
  stored : s.file ++ s.serializer.items ++ s.compressed.reverse = packed.map compress
  compressedSizes : s.compressedSizes =
    init.compressedSizes ++ packed.map fun chunk => (compress chunk).wasWritten
  uncompressedSizes : s.uncompressedSizes =
    init.uncompressedSizes ++ packed.map fun chunk => (compress chunk).wasRead
  busy_hasBytes : ∀ chunk ∈ s.compressor.items, hasBytes chunk = true
  direct_write : s.multithreadedWrite = false →
    s.serializer.items = [] ∧ s.compressed = []
  direct_compress : aligned → s.multithreadedCompress = false →
    s.compressor.items = [] ∧ s.uncompressed = []

/-- How the flags, the exits of the workers and the progress of `finalize` hang
together. -/
structure Flags (s : State) : Prop where
  feeding : s.doneFeeding = true ↔
    s.phase = .fed ∨ s.phase = .joined ∨ s.phase = .finished
  compressing : s.doneCompressing = true ↔ s.phase = .joined ∨ s.phase = .finished
  compressor_exited : s.compressor = .exited →
    s.doneFeeding = true ∧ s.uncompressed = []
  doneCompressing : s.doneCompressing = true → s.compressor = .exited
  serializer_exited : s.serializer = .exited →
    s.doneCompressing = true ∧ s.compressed = []
  finished_exited : s.phase = .finished → s.serializer = .exited

section

variable {compress : Chunk → Compressed}
variable {aligned : Prop} {closed packed : List Chunk} {init s next : State}

/-- A chunk that is compressed joins the file, the queue in front of it, and the
two lists of sizes. -/
theorem packChunk_stored (hqueued : Queued compress aligned init closed packed s)
    (chunk : Chunk) :
    (packChunk compress s chunk).file ++ (packChunk compress s chunk).serializer.items ++
        (packChunk compress s chunk).compressed.reverse =
      (packed ++ [chunk]).map compress ∧
    (packChunk compress s chunk).compressedSizes =
      init.compressedSizes ++
        (packed ++ [chunk]).map (fun chunk => (compress chunk).wasWritten) ∧
    (packChunk compress s chunk).uncompressedSizes =
      init.uncompressedSizes ++
        (packed ++ [chunk]).map (fun chunk => (compress chunk).wasRead) ∧
    ((packChunk compress s chunk).multithreadedWrite = false →
      (packChunk compress s chunk).serializer.items = [] ∧
        (packChunk compress s chunk).compressed = []) := by
  have hstored := hqueued.stored
  unfold packChunk
  simp only [List.map_append, List.map_cons, List.map_nil, ← hstored,
    hqueued.compressedSizes, hqueued.uncompressedSizes, List.append_assoc]
  by_cases hmode : s.multithreadedWrite = true
  · simp only [if_pos hmode]
    exact ⟨by simp, trivial, trivial, fun hnot => by simp [hmode] at hnot⟩
  · obtain ⟨hserializer, hcompressed⟩ :=
      hqueued.direct_write (Bool.eq_false_of_not_eq_true hmode)
    simp only [if_neg hmode]
    exact ⟨by simp [hserializer, hcompressed], trivial, trivial,
      fun _ => ⟨hserializer, hcompressed⟩⟩

/-- The chunks that the producer compresses on the spot when an operation hands
something over. -/
def packedHere (s : State) : Handed → List Chunk
  | .closed chunk => if s.multithreadedCompress then [] else [chunk]
  | _ => []

/-- The producer closes a chunk. -/
theorem closeChunk_queued (hqueued : Queued compress aligned init closed packed s)
    (chunk : Chunk) :
    Queued compress aligned init (closed ++ [chunk]) (packed ++ packedHere s (.closed chunk))
      (closeChunk compress s chunk) := by
  unfold closeChunk
  simp only [packedHere]
  by_cases hmode : s.multithreadedCompress = true
  · rw [if_pos hmode, if_pos hmode, List.append_nil]
    -- the chunk waits behind all others
    have htransit : transit packed { s with uncompressed := chunk :: s.uncompressed } =
        transit packed s ++ [chunk].filter hasBytes := by
      simp only [transit, List.reverse_cons]
      rw [← List.append_assoc, List.filter_append]
    refine ⟨?_, fun haligned => ?_, hqueued.stored, hqueued.compressedSizes,
      hqueued.uncompressedSizes, hqueued.busy_hasBytes, hqueued.direct_write,
      fun _ hnot => by simp [hmode] at hnot⟩
    · rw [htransit, List.filter_append]
      exact hqueued.balance.append_right _
    · rw [htransit, List.filter_append, hqueued.order haligned]
  · rw [if_neg hmode, if_neg hmode]
    obtain ⟨hstored, hcsizes, husizes, hwrite⟩ := packChunk_stored hqueued chunk
    refine ⟨?_, fun haligned => ?_, hstored, hcsizes, husizes, hqueued.busy_hasBytes,
      hwrite, hqueued.direct_compress⟩
    · -- it overtakes whatever waits for the compressor
      refine List.Perm.trans ?_ (List.filter_append (closed) [chunk] ▸
        hqueued.balance.append_right ([chunk].filter hasBytes))
      unfold transit packChunk
      simp only
      rw [← List.filter_append]
      refine List.Perm.filter _ ?_
      rw [List.append_assoc, List.append_assoc, List.append_assoc, List.append_assoc]
      refine List.Perm.append_left packed ?_
      rw [← List.append_assoc s.compressor.items]
      exact List.perm_append_comm
    · obtain ⟨hcompressor, huncompressed⟩ :=
        hqueued.direct_compress haligned (Bool.eq_false_of_not_eq_true hmode)
      have horder := hqueued.order haligned
      simp only [transit, hcompressor, huncompressed, List.append_nil,
        List.reverse_nil] at horder
      simp only [transit, packChunk, hcompressor, huncompressed, List.append_nil,
        List.reverse_nil]
      rw [List.filter_append, horder, List.filter_append]

/-- What an operation hands over joins the closed chunks. -/
theorem deliver_queued (hqueued : Queued compress aligned init closed packed s)
    (handed : Handed)
    (haside : aligned → s.multithreadedCompress = false →
      ∀ chunks, handed = .spliced chunks → chunks = []) :
    Queued compress aligned init (closed ++ handed.chunks.reverse)
      (packed ++ packedHere s handed) (deliver compress s handed) := by
  cases handed with
  | nothing => simpa [Handed.chunks, deliver, packedHere] using hqueued
  | closed chunk => exact closeChunk_queued hqueued chunk
  | spliced chunks =>
      have htransit : transit packed { s with uncompressed := chunks ++ s.uncompressed } =
          transit packed s ++ chunks.reverse.filter hasBytes := by
        simp only [transit, List.reverse_append]
        rw [← List.append_assoc, List.filter_append]
      simp only [deliver, Handed.chunks, packedHere, List.append_nil]
      refine ⟨?_, fun haligned => ?_, hqueued.stored, hqueued.compressedSizes,
        hqueued.uncompressedSizes, hqueued.busy_hasBytes, hqueued.direct_write, ?_⟩
      · rw [htransit, List.filter_append]
        exact hqueued.balance.append_right _
      · rw [htransit, List.filter_append, hqueued.order haligned]
      · intro haligned hmode
        have hmode : s.multithreadedCompress = false := hmode
        simp only [haside haligned hmode chunks rfl, List.nil_append]
        exact hqueued.direct_compress haligned hmode

/-- The compressor takes the oldest chunk of its queue; an empty one is gone. -/
theorem compressorTake_queued (hqueued : Queued compress aligned init closed packed s)
    {chunk : Chunk} {rest : List Chunk} (hidle : s.compressor = .idle)
    (hqueue : s.uncompressed = rest ++ [chunk]) :
    Queued compress aligned init closed packed { s with
      uncompressed := rest
      compressor := if chunk.bytes.length > 0 then .busy chunk else .idle } := by
  have htransit : transit packed { s with
      uncompressed := rest
      compressor := if chunk.bytes.length > 0 then .busy chunk else .idle } =
      transit packed s := by
    simp only [transit, hidle, hqueue, Worker.items, List.reverse_append, List.reverse_cons,
      List.reverse_nil, List.nil_append, List.append_nil]
    by_cases hbytes : chunk.bytes.length > 0
    · simp [hasBytes, hbytes, List.filter_append]
    · simp [hasBytes, hbytes, List.filter_append]
  refine ⟨htransit ▸ hqueued.balance, fun haligned => htransit ▸ hqueued.order haligned,
    hqueued.stored, hqueued.compressedSizes, hqueued.uncompressedSizes, ?_,
    hqueued.direct_write, ?_⟩
  · intro other hother
    by_cases hbytes : chunk.bytes.length > 0
    · simp only [hbytes, if_true, Worker.items, List.mem_singleton] at hother
      simpa [hasBytes, hother] using hbytes
    · simp [hbytes, Worker.items] at hother
  · intro haligned hmode
    have := (hqueued.direct_compress haligned hmode).2
    simp [this] at hqueue

/-- The compressor hands on the chunk it holds. -/
theorem compressorPut_queued (hqueued : Queued compress aligned init closed packed s)
    {chunk : Chunk} (hbusy : s.compressor = .busy chunk) :
    hasBytes chunk = true ∧ Queued compress aligned init closed (packed ++ [chunk])
      { packChunk compress s chunk with compressor := .idle } := by
  have hbytes := hqueued.busy_hasBytes chunk (by simp [hbusy, Worker.items])
  obtain ⟨hstored, hcsizes, husizes, hwrite⟩ := packChunk_stored hqueued chunk
  have htransit : transit (packed ++ [chunk])
      { packChunk compress s chunk with compressor := .idle } = transit packed s := by
    simp [transit, packChunk, hbusy, Worker.items]
  refine ⟨hbytes, htransit ▸ hqueued.balance,
    fun haligned => htransit ▸ hqueued.order haligned, hstored, hcsizes, husizes,
    by simp [Worker.items], hwrite, ?_⟩
  intro haligned hmode
  have := (hqueued.direct_compress haligned hmode).1
  simp [hbusy, Worker.items] at this

/-- The serializer takes the oldest compressed buffer. -/
theorem serializerTake_queued (hqueued : Queued compress aligned init closed packed s)
    {item : Compressed} {rest : List Compressed} (hidle : s.serializer = .idle)
    (hqueue : s.compressed = rest ++ [item]) :
    Queued compress aligned init closed packed
      { s with compressed := rest, serializer := .busy item } := by
  have hstored := hqueued.stored
  simp only [hidle, Worker.items, hqueue] at hstored
  refine ⟨hqueued.balance, hqueued.order, ?_, hqueued.compressedSizes,
    hqueued.uncompressedSizes, hqueued.busy_hasBytes, ?_, hqueued.direct_compress⟩
  · rw [← hstored]
    simp [Worker.items]
  · intro hmode
    have := (hqueued.direct_write hmode).2
    simp [this] at hqueue

/-- The serializer writes the buffer it holds. -/
theorem serializerPut_queued (hqueued : Queued compress aligned init closed packed s)
    {item : Compressed} (hbusy : s.serializer = .busy item) :
    Queued compress aligned init closed packed
      { s with file := s.file ++ [item], serializer := .idle } := by
  have hstored := hqueued.stored
  simp only [hbusy, Worker.items] at hstored
  refine ⟨hqueued.balance, hqueued.order, ?_, hqueued.compressedSizes,
    hqueued.uncompressedSizes, hqueued.busy_hasBytes, ?_, hqueued.direct_compress⟩
  · rw [← hstored]
    simp [Worker.items]
  · intro hmode
    have := (hqueued.direct_write hmode).1
    simp [hbusy, Worker.items] at this

/-- A worker that holds nothing may leave its loop. -/
theorem Queued.congr_workers (hqueued : Queued compress aligned init closed packed s)
    (hcompressor : next.compressor.items = s.compressor.items)
    (hserializer : next.serializer.items = s.serializer.items)
    (hrest : { next with
        compressor := s.compressor, serializer := s.serializer, phase := s.phase
        doneFeeding := s.doneFeeding, doneCompressing := s.doneCompressing } = s) :
    Queued compress aligned init closed packed next := by
  obtain ⟨hbalance, horder, hstored, hcsizes, husizes, hbusy, hwrite, hdirect⟩ := hqueued
  rw [← hrest] at hbalance horder hstored hcsizes husizes hbusy hwrite hdirect
  simp only [transit, ← hcompressor, ← hserializer] at hbalance horder hstored
  simp only [← hcompressor, ← hserializer] at hbusy hwrite hdirect
  exact ⟨hbalance, horder, hstored, hcsizes, husizes, hbusy, hwrite, hdirect⟩

/-! ## Flags and exits -/

/-- Until `finalize` sets `done_feeding` no worker has left its loop. -/
theorem Flags.not_exited (hflags : Flags s)
    (hphase : s.phase = .running ∨ s.phase = .pushed) :
    s.doneFeeding = false ∧ s.compressor ≠ .exited ∧ s.doneCompressing = false ∧
      s.serializer ≠ .exited := by
  have hfeeding : s.doneFeeding = false := by
    refine Bool.eq_false_of_not_eq_true fun h => ?_
    rcases hphase with hphase | hphase <;> simpa [hphase] using hflags.feeding.mp h
  have hcompressor : s.compressor ≠ .exited := fun hexited => by
    simp [(hflags.compressor_exited hexited).1] at hfeeding
  have hcompressing : s.doneCompressing = false :=
    Bool.eq_false_of_not_eq_true fun h => hcompressor (hflags.doneCompressing h)
  refine ⟨hfeeding, hcompressor, hcompressing, fun hexited => ?_⟩
  simp [(hflags.serializer_exited hexited).1] at hcompressing

theorem Flags.of_not_exited (hphase : s.phase = .running ∨ s.phase = .pushed)
    (hfeeding : s.doneFeeding = false) (hcompressor : s.compressor ≠ .exited)
    (hcompressing : s.doneCompressing = false) (hserializer : s.serializer ≠ .exited) :
    Flags s := by
  refine ⟨?_, ?_, fun h => absurd h hcompressor, fun h => by simp [h] at hcompressing,
    fun h => absurd h hserializer, ?_⟩
  · rcases hphase with hphase | hphase <;> simp [hphase, hfeeding]
  · rcases hphase with hphase | hphase <;> simp [hphase, hcompressing]
  · rcases hphase with hphase | hphase <;> simp [hphase]

theorem closeChunk_frame (compress : Chunk → Compressed) (s : State)
    (chunk : Chunk) :
    (closeChunk compress s chunk).doneFeeding = s.doneFeeding ∧
      (closeChunk compress s chunk).compressor = s.compressor ∧
      (closeChunk compress s chunk).doneCompressing = s.doneCompressing ∧
      (closeChunk compress s chunk).serializer = s.serializer ∧
      (closeChunk compress s chunk).phase = s.phase ∧
      (closeChunk compress s chunk).writer = s.writer ∧
      (closeChunk compress s chunk).multithreadedCompress = s.multithreadedCompress ∧
      (closeChunk compress s chunk).multithreadedWrite = s.multithreadedWrite := by
  unfold closeChunk packChunk
  split <;> simp

theorem deliver_frame (compress : Chunk → Compressed) (s : State)
    (handed : Handed) :
    (deliver compress s handed).doneFeeding = s.doneFeeding ∧
      (deliver compress s handed).compressor = s.compressor ∧
      (deliver compress s handed).doneCompressing = s.doneCompressing ∧
      (deliver compress s handed).serializer = s.serializer ∧
      (deliver compress s handed).phase = s.phase ∧
      (deliver compress s handed).writer = s.writer ∧
      (deliver compress s handed).multithreadedCompress = s.multithreadedCompress ∧
      (deliver compress s handed).multithreadedWrite = s.multithreadedWrite := by
  cases handed with
  | nothing => simp [deliver]
  | closed chunk => exact closeChunk_frame compress s chunk
  | spliced chunks => simp [deliver]

/-- Every step keeps the flags in step with the workers. -/
theorem step_flags {label : Label} (hflags : Flags s)
    (hstep : step compress s label = some next) : Flags next := by
  cases step_moved hstep with
  | @op op writer handed hphase hrun =>
      obtain ⟨hfeeding, hcompressor, hcompressing, hserializer⟩ :=
        hflags.not_exited (Or.inl hphase)
      obtain ⟨h1, h2, h3, h4, h5, -⟩ :=
        deliver_frame compress { s with writer := writer } handed
      exact Flags.of_not_exited (Or.inl (h5.trans hphase)) (h1.trans hfeeding)
        (fun h => hcompressor (h2.symm.trans h)) (h3.trans hcompressing)
        (fun h => hserializer (h4.symm.trans h))
  | finalize hphase hheld =>
      obtain ⟨hfeeding, hcompressor, hcompressing, hserializer⟩ :=
        hflags.not_exited (Or.inl hphase)
      obtain ⟨h1, h2, h3, h4, -⟩ :=
        closeChunk_frame compress s s.writer.chunk
      exact Flags.of_not_exited (Or.inr rfl) (h1.trans hfeeding)
        (fun h => hcompressor (h2.symm.trans h)) (h3.trans hcompressing)
        (fun h => hserializer (h4.symm.trans h))
  | feedDone hphase =>
      have hopen := hflags.not_exited (Or.inr hphase)
      exact ⟨by simp, by simp [hopen.2.2.1], fun h => absurd h hopen.2.1,
        hflags.doneCompressing, hflags.serializer_exited, by simp⟩
  | joinCompressor hphase hexited =>
      -- the compressor has left, so the serializer may be told
      have hfed := hflags.feeding.mpr (Or.inl hphase)
      exact ⟨by simp [hfed], by simp, hflags.compressor_exited, fun _ => hexited,
        fun h => ⟨rfl, (hflags.serializer_exited h).2⟩, by simp⟩
  | joinSerializer hphase hexited =>
      have hfed := hflags.feeding.mpr (Or.inr (Or.inl hphase))
      have hjoined := hflags.compressing.mpr (Or.inl hphase)
      exact ⟨by simp [hfed], by simp [hjoined], hflags.compressor_exited,
        hflags.doneCompressing, hflags.serializer_exited, fun _ => hexited⟩
  | compressorTake hidle hqueue =>
      refine ⟨hflags.feeding, hflags.compressing, ?_, ?_, hflags.serializer_exited,
        hflags.finished_exited⟩
      · intro hexited
        simp only at hexited
        split at hexited <;> cases hexited
      · intro hdone
        have := hflags.doneCompressing hdone
        rw [hidle] at this
        cases this
  | compressorPut hbusy =>
      -- the compressor is in its loop, so the serializer is as well
      have hcompressing : s.doneCompressing = false :=
        Bool.eq_false_of_not_eq_true fun h => by
          have := hflags.doneCompressing h
          rw [hbusy] at this
          cases this
      refine ⟨hflags.feeding, hflags.compressing, fun h => (by cases h),
        fun h => ?_, fun h => ?_, hflags.finished_exited⟩
      · exact absurd (hcompressing.symm.trans h) (by simp)
      · exact absurd (hcompressing.symm.trans (hflags.serializer_exited h).1) (by simp)
  | compressorExit hidle hempty hfed =>
      exact ⟨hflags.feeding, hflags.compressing, fun _ => ⟨hfed, hempty⟩,
        fun _ => rfl, hflags.serializer_exited, hflags.finished_exited⟩
  | serializerTake hidle =>
      refine ⟨hflags.feeding, hflags.compressing, hflags.compressor_exited,
        hflags.doneCompressing, fun h => (by cases h), fun h => ?_⟩
      have := hflags.finished_exited h
      rw [hidle] at this
      cases this
  | serializerPut hbusy =>
      refine ⟨hflags.feeding, hflags.compressing, hflags.compressor_exited,
        hflags.doneCompressing, fun h => (by cases h), fun h => ?_⟩
      have := hflags.finished_exited h
      rw [hbusy] at this
      cases this
  | serializerExit hidle hempty hdone =>
      exact ⟨hflags.feeding, hflags.compressing, hflags.compressor_exited,
        hflags.doneCompressing, fun _ => ⟨hdone, hempty⟩, fun _ => rfl⟩

/-! ## Whole runs -/

/-- A `thaw` that splices kept chunks into the compressor's queue, although the
producer compresses the chunks it closes itself. -/
def splicesAside (s : State) : Label → Bool
  | .op .thaw => !s.multithreadedCompress && !s.writer.held.isEmpty
  | _ => false

/-- The chunks that have left the producer: once `finalize` has run, the current
one is among them. -/
def leftProducer (s : State) (closed : List Chunk) : List Chunk :=
  if s.phase = .running then closed else closed ++ [s.writer.chunk]

/-- The operation does not fit the rest of the current chunk. -/
def overflows (w : Writer) : Op → Bool
  | .block bytes | .later bytes => bytes.length > w.capacity - w.chunk.bytes.length
  | _ => false

/-- The producer closes its chunk while it is empty, and compresses it on the
spot. -/
def packsEmpty (s : State) : Label → Bool
  | .op op =>
      !s.multithreadedCompress && !s.writer.holding && overflows s.writer op &&
        s.writer.chunk.bytes.isEmpty
  | .finalize => !s.multithreadedCompress && s.writer.chunk.bytes.isEmpty
  | _ => false

/-- What an operation can hand over: the current chunk when it overflows outside
a freeze, the kept chunks when it is a `thaw`. -/
theorem op_run_handed {w w' : Writer} {op : Op} {handed : Handed}
    (hrun : op.run w = some (w', handed)) :
    (overflows w op = true ∧ w.holding = false ∧ handed = .closed w.chunk) ∨
      ((overflows w op = false ∨ w.holding = true) ∧
        (handed = .nothing ∨ (op = .thaw ∧ handed = .spliced w.held))) := by
  -- only a block that does not fit closes a chunk, and none is handed over in a freeze
  have hspace : ∀ size,
      (decide (size > w.capacity - w.chunk.bytes.length) = true ∧ w.holding = false ∧
        (checkSpace w size).2 = .closed w.chunk) ∨
      ((decide (size > w.capacity - w.chunk.bytes.length) = false ∨ w.holding = true) ∧
        (checkSpace w size).2 = .nothing) := by
    intro size
    unfold checkSpace makeSpace
    simp only
    by_cases hover : size > w.capacity - w.chunk.bytes.length
    · rw [if_pos hover]
      cases hholding : w.holding <;> simp [hover]
    · rw [if_neg hover]
      simp [hover]
  cases op with
  | block bytes =>
      simp only [Op.run] at hrun
      split at hrun
      · cases hrun
        exact (hspace bytes.length).imp id fun h => ⟨h.1, Or.inl h.2⟩
      · cases hrun
  | later bytes =>
      simp only [Op.run] at hrun
      split at hrun
      · cases hrun
        exact (hspace bytes.length).imp id fun h => ⟨h.1, Or.inl h.2⟩
      · cases hrun
  | poke pos bytes =>
      simp only [Op.run] at hrun
      split at hrun <;> cases hrun
      exact Or.inr ⟨Or.inl rfl, Or.inl rfl⟩
  | freeze =>
      cases hrun
      exact Or.inr ⟨Or.inl rfl, Or.inl rfl⟩
  | thaw =>
      simp only [Op.run, FileWriter.thaw] at hrun
      split at hrun <;> cases hrun
      · exact Or.inr ⟨Or.inl rfl, Or.inr ⟨rfl, rfl⟩⟩
      · exact Or.inr ⟨Or.inl rfl, Or.inl rfl⟩

/-- Where the chunks of a run are, for the labels taken so far, whatever the flags say. -/
structure Tracked (compress : Chunk → Compressed) (aligned : Prop) (init : State)
    (trace : List Label) (s : State) : Prop where
  reached : exec (step compress) init trace = some s
  compressMode : s.multithreadedCompress = init.multithreadedCompress
  held_nil : s.phase ≠ .running → s.writer.held = []
  queued : ∃ closed packed,
    produce init.writer (opsOf trace) = some (s.writer, closed) ∧
      Queued compress aligned init (leftProducer s closed) packed s ∧
      ((∀ chunk ∈ packed, hasBytes chunk = true) ↔
        Along (step compress) (fun s label => packsEmpty s label = false) init trace)

/-- The invariant of whole runs. -/
structure Inv (compress : Chunk → Compressed) (aligned : Prop) (init : State)
    (trace : List Label) (s : State) : Prop extends
    Tracked compress aligned init trace s where
  flags : Flags s

theorem inv_init (compress : Chunk → Compressed) (aligned : Prop) (chunkSize : Nat)
    (multithreadedCompress multithreadedWrite : Bool) :
    Inv compress aligned
      (State.init chunkSize multithreadedCompress multithreadedWrite) []
      (State.init chunkSize multithreadedCompress multithreadedWrite) := by
  refine ⟨⟨rfl, rfl, fun h => absurd rfl h, [], [], rfl, ?_, by simp⟩,
    Flags.of_not_exited (Or.inl rfl) rfl (by simp [State.init]) rfl (by simp [State.init])⟩
  exact ⟨List.Perm.refl _, fun _ => rfl, rfl, rfl, rfl, by simp [State.init, Worker.items],
    fun _ => ⟨rfl, rfl⟩, fun _ _ => ⟨rfl, rfl⟩⟩

/-- An operation makes the producer pack an empty chunk exactly where `packsEmpty` says so. -/
theorem packedHere_op_iff {op : Op} {writer : Writer} {handed : Handed}
    (hop : op.run s.writer = some (writer, handed)) :
    (∀ chunk ∈ packedHere s handed, hasBytes chunk = true) ↔ packsEmpty s (.op op) = false := by
  cases hmode : s.multithreadedCompress with
  | true =>
      rcases op_run_handed hop with ⟨-, -, rfl⟩ | ⟨-, rfl | ⟨-, rfl⟩⟩ <;>
        simp [packedHere, packsEmpty, hmode]
  | false =>
      rcases op_run_handed hop with ⟨hover, hholding, rfl⟩ | ⟨hnot, rfl | ⟨-, rfl⟩⟩
      · simp [packedHere, packsEmpty, hmode, hover, hholding, hasBytes, List.length_pos_iff]
      · rcases hnot with hnot | hnot <;> simp [packedHere, packsEmpty, hnot]
      · rcases hnot with hnot | hnot <;> simp [packedHere, packsEmpty, hnot]

theorem packedHere_finalize_iff (s : State) :
    (∀ chunk ∈ packedHere s (.closed s.writer.chunk), hasBytes chunk = true) ↔
      packsEmpty s .finalize = false := by
  cases hmode : s.multithreadedCompress with
  | true => simp [packedHere, packsEmpty, hmode]
  | false => simp [packedHere, packsEmpty, hmode, hasBytes, List.length_pos_iff]

/-- What is packed behind a run has bytes exactly if no step of it packed an empty chunk. -/
theorem clean_snoc {init : State} {trace : List Label} {label : Label} {more : List Chunk}
    (hreached : exec (step compress) init trace = some s)
    (hclean : (∀ chunk ∈ packed, hasBytes chunk = true) ↔
      Along (step compress) (fun s label => packsEmpty s label = false) init trace)
    (hmore : (∀ chunk ∈ more, hasBytes chunk = true) ↔ packsEmpty s label = false) :
    (∀ chunk ∈ packed ++ more, hasBytes chunk = true) ↔
      Along (step compress) (fun s label => packsEmpty s label = false) init
        (trace ++ [label]) := by
  rw [along_snoc_iff hreached, ← hclean, ← hmore, List.forall_mem_append]

section Step

variable {init : State} {trace : List Label} {label : Label}

/-- A step of a worker, or a later step of `finalize`. -/
theorem Tracked.worker (htracked : Tracked compress aligned init trace s)
    (hstep : step compress s label = some next) (hlabel : ∀ op, label ≠ .op op)
    (hwriter : next.writer = s.writer)
    (hcompress : next.multithreadedCompress = s.multithreadedCompress)
    (hphase : next.phase = .running ↔ s.phase = .running) (hempty : packsEmpty s label = false)
    {more : List Chunk} (hmore : ∀ chunk ∈ more, hasBytes chunk = true)
    (hnext : ∀ closed packed, Queued compress aligned init closed packed s →
      Queued compress aligned init closed (packed ++ more) next) :
    Tracked compress aligned init (trace ++ [label]) next := by
  obtain ⟨closed, packed, hproduce, hqueued, hclean⟩ := htracked.queued
  have hops : opsOf (trace ++ [label]) = opsOf trace := by
    cases label <;> simp_all [opsOf]
  refine ⟨exec_snoc_eq_some_iff.mpr ⟨s, htracked.reached, hstep⟩,
    hcompress.trans htracked.compressMode, ?_, closed, packed ++ more,
    by rw [hops, hwriter, hproduce], ?_, ?_⟩
  · intro hne
    rw [hwriter]
    exact htracked.held_nil fun h => hne (hphase.mpr h)
  · have hleft : leftProducer next closed = leftProducer s closed := by
      unfold leftProducer
      simp only [hphase, hwriter]
    rw [hleft]
    exact hnext _ _ hqueued
  · exact clean_snoc htracked.reached hclean (iff_of_true hmore hempty)

/-- A step of a worker that packs nothing. -/
theorem Tracked.worker_nil (htracked : Tracked compress aligned init trace s)
    (hstep : step compress s label = some next) (hlabel : ∀ op, label ≠ .op op)
    (hwriter : next.writer = s.writer)
    (hcompress : next.multithreadedCompress = s.multithreadedCompress)
    (hphase : next.phase = .running ↔ s.phase = .running) (hempty : packsEmpty s label = false)
    (hnext : ∀ closed packed, Queued compress aligned init closed packed s →
      Queued compress aligned init closed packed next) :
    Tracked compress aligned init (trace ++ [label]) next := by
  apply htracked.worker hstep hlabel hwriter hcompress hphase hempty (List.forall_mem_nil _)
  intro closed packed hqueued
  rw [List.append_nil]
  exact hnext closed packed hqueued

/-- An operation of the producer. -/
theorem Tracked.op {op : Op} {writer : Writer} {handed : Handed}
    (htracked : Tracked compress aligned init trace s) (hphase : s.phase = .running)
    (hop : op.run s.writer = some (writer, handed))
    (haside : aligned → splicesAside s (.op op) = false)
    (hstep : step compress s (.op op) =
      some (deliver compress { s with writer := writer } handed)) :
    Tracked compress aligned init (trace ++ [.op op])
      (deliver compress { s with writer := writer } handed) := by
  obtain ⟨closed, packed, hproduce, hqueued, hclean⟩ := htracked.queued
  obtain ⟨-, -, -, -, h5, h6, h7, -⟩ := deliver_frame compress { s with writer := writer } handed
  -- the queues do not see the writer, only what it hands over
  have hqueued' : Queued compress aligned init closed packed { s with writer := writer } := by
    unfold leftProducer at hqueued
    rw [if_pos hphase] at hqueued
    exact ⟨hqueued.balance, hqueued.order, hqueued.stored, hqueued.compressedSizes,
      hqueued.uncompressedSizes, hqueued.busy_hasBytes, hqueued.direct_write,
      hqueued.direct_compress⟩
  -- where the order is asked for, no spliced chunk may overtake the queue
  have hdelivered := deliver_queued hqueued' handed (by
    intro haligned hmode chunks hspliced
    subst hspliced
    rcases op_run_handed hop with ⟨-, -, h⟩ | ⟨-, h | ⟨rfl, h⟩⟩
    · cases h
    · cases h
    · cases h
      have hmode : s.multithreadedCompress = false := hmode
      simpa [splicesAside, hmode] using haside haligned)
  refine ⟨exec_snoc_eq_some_iff.mpr ⟨s, htracked.reached, hstep⟩,
    h7.trans htracked.compressMode, fun hne => absurd (h5.trans hphase) hne,
    closed ++ handed.chunks.reverse, packed ++ packedHere s handed, ?_, ?_, ?_⟩
  · have hops : opsOf (trace ++ [.op op]) = opsOf trace ++ [op] := by
      simp [opsOf]
    rw [h6, hops]
    exact produce_snoc hproduce hop
  · unfold leftProducer
    rw [if_pos (h5.trans hphase)]
    exact hdelivered
  · exact clean_snoc htracked.reached hclean (packedHere_op_iff hop)

/-- `finalize` closes the last chunk. -/
theorem Tracked.finalize (htracked : Tracked compress aligned init trace s)
    (hphase : s.phase = .running)
    (hheld : s.writer.held = [])
    (hstep : step compress s .finalize =
      some { closeChunk compress s s.writer.chunk with phase := .pushed }) :
    Tracked compress aligned init (trace ++ [.finalize])
      { closeChunk compress s s.writer.chunk with phase := .pushed } := by
  obtain ⟨closed, packed, hproduce, hqueued, hclean⟩ := htracked.queued
  obtain ⟨-, -, -, -, -, h6, h7, -⟩ := closeChunk_frame compress s s.writer.chunk
  unfold leftProducer at hqueued
  rw [if_pos hphase] at hqueued
  have hnext := closeChunk_queued hqueued s.writer.chunk
  refine ⟨exec_snoc_eq_some_iff.mpr ⟨s, htracked.reached, hstep⟩,
    h7.trans htracked.compressMode, ?_, closed, packed ++ packedHere s (.closed s.writer.chunk),
    ?_, ?_, ?_⟩
  · intro _
    simp only [h6]
    exact hheld
  · have hops : opsOf (trace ++ [.finalize]) = opsOf trace := by
      simp [opsOf]
    simp only [h6]
    rw [hops, hproduce]
  · unfold leftProducer
    rw [if_neg (by simp)]
    simp only [h6]
    exact ⟨hnext.balance, hnext.order, hnext.stored, hnext.compressedSizes,
      hnext.uncompressedSizes, hnext.busy_hasBytes, hnext.direct_write, hnext.direct_compress⟩
  · exact clean_snoc htracked.reached hclean (packedHere_finalize_iff s)

/-- **One step of any thread.**  Its effect on the chunks does not depend on the flags. -/
theorem step_tracked (htracked : Tracked compress aligned init trace s)
    (haside : aligned → splicesAside s label = false)
    (hstep : step compress s label = some next) :
    Tracked compress aligned init (trace ++ [label]) next := by
  cases step_moved hstep with
  | op hphase hop => exact htracked.op hphase hop haside hstep
  | finalize hphase hheld => exact htracked.finalize hphase hheld hstep
  | feedDone hphase =>
      exact htracked.worker_nil hstep nofun rfl rfl (by simp [hphase]) rfl
        fun _ _ hqueued => hqueued.congr_workers rfl rfl (by simp)
  | joinCompressor hphase =>
      exact htracked.worker_nil hstep nofun rfl rfl (by simp [hphase]) rfl
        fun _ _ hqueued => hqueued.congr_workers rfl rfl (by simp)
  | joinSerializer hphase =>
      exact htracked.worker_nil hstep nofun rfl rfl (by simp [hphase]) rfl
        fun _ _ hqueued => hqueued.congr_workers rfl rfl (by simp)
  | compressorTake hidle hqueue =>
      exact htracked.worker_nil hstep nofun rfl rfl Iff.rfl rfl
        fun _ _ hqueued => compressorTake_queued hqueued hidle hqueue
  -- the only worker that packs: what it holds is never empty
  | @compressorPut chunk hbusy =>
      obtain ⟨closed, packed, -, hqueued, -⟩ := htracked.queued
      have hbytes := (compressorPut_queued hqueued hbusy).1
      exact htracked.worker hstep nofun rfl rfl Iff.rfl rfl (List.forall_mem_singleton.mpr hbytes)
        fun _ _ hqueued => (compressorPut_queued hqueued hbusy).2
  | compressorExit hidle =>
      exact htracked.worker_nil hstep nofun rfl rfl Iff.rfl rfl
        fun _ _ hqueued => hqueued.congr_workers (by simp [hidle, Worker.items]) rfl (by simp)
  | serializerTake hidle hqueue =>
      exact htracked.worker_nil hstep nofun rfl rfl Iff.rfl rfl
        fun _ _ hqueued => serializerTake_queued hqueued hidle hqueue
  | serializerPut hbusy =>
      exact htracked.worker_nil hstep nofun rfl rfl Iff.rfl rfl
        fun _ _ hqueued => serializerPut_queued hqueued hbusy
  | serializerExit hidle =>
      exact htracked.worker_nil hstep nofun rfl rfl Iff.rfl rfl
        fun _ _ hqueued => hqueued.congr_workers rfl (by simp [hidle, Worker.items]) (by simp)

theorem step_inv (hinv : Inv compress aligned init trace s)
    (haside : aligned → splicesAside s label = false)
    (hstep : step compress s label = some next) :
    Inv compress aligned init (trace ++ [label]) next :=
  ⟨step_tracked hinv.toTracked haside hstep, step_flags hinv.flags hstep⟩

end Step

/-- Every run that is aligned only if it splices nothing aside keeps the
invariant. -/
theorem run_inv (compress : Chunk → Compressed) (aligned : Prop) {chunkSize : Nat}
    {multithreadedCompress multithreadedWrite : Bool} {labels : List Label}
    (haside : Along (step compress)
      (fun s label => aligned → splicesAside s label = false)
      (State.init chunkSize multithreadedCompress multithreadedWrite) labels)
    (hrun : exec (step compress)
      (State.init chunkSize multithreadedCompress multithreadedWrite) labels = some s) :
    Inv compress aligned
      (State.init chunkSize multithreadedCompress multithreadedWrite) labels s := by
  have := exec_trace_invariant
    (fun _ _ _ _ hinv haside hstep => step_inv hinv haside hstep)
    (inv_init compress aligned chunkSize multithreadedCompress multithreadedWrite) haside
    hrun
  simpa using this

/-- **The file when both workers have left.**  It holds the compressed closed chunks, in
order if the run is aligned; empty ones may be missing. -/
theorem Tracked.finished {init : State} {trace : List Label}
    (htracked : Tracked compress aligned init trace s) (hphase : s.phase = .finished)
    (hcompressor : s.compressor = .exited) (huncompressed : s.uncompressed = [])
    (hserializer : s.serializer = .exited) (hcompressed : s.compressed = []) :
    s.writer.held = [] ∧
      ∃ closed packed : List Chunk,
        produce init.writer (opsOf trace) = some (s.writer, closed) ∧
        (packed.filter hasBytes).Perm ((closed ++ [s.writer.chunk]).filter hasBytes) ∧
        (aligned → packed.filter hasBytes =
          (closed ++ [s.writer.chunk]).filter hasBytes) ∧
        s.file = packed.map compress ∧
        s.compressedSizes =
          init.compressedSizes ++ packed.map (fun chunk => (compress chunk).wasWritten) ∧
        s.uncompressedSizes =
          init.uncompressedSizes ++ packed.map (fun chunk => (compress chunk).wasRead) ∧
        ((∀ chunk ∈ packed, hasBytes chunk = true) ↔
          Along (step compress) (fun s label => packsEmpty s label = false) init
            trace) := by
  obtain ⟨closed, packed, hproduce, hqueued, hclean⟩ := htracked.queued
  have hbalance := hqueued.balance
  have horder := hqueued.order
  have hstored := hqueued.stored
  simp only [transit, hcompressor, huncompressed, Worker.items, List.reverse_nil,
    List.append_nil, leftProducer, hphase, reduceCtorEq, if_false] at hbalance horder
  simp only [hserializer, hcompressed, Worker.items, List.reverse_nil,
    List.append_nil] at hstored
  exact ⟨htracked.held_nil (by simp [hphase]), closed, packed, hproduce, hbalance, horder,
    hstored, hqueued.compressedSizes, hqueued.uncompressedSizes, hclean⟩

/-- **The file when `finalize` has returned.** -/
theorem Inv.finished {init : State} {trace : List Label}
    (hinv : Inv compress aligned init trace s) (hphase : s.phase = .finished) :
    s.writer.held = [] ∧ s.uncompressed = [] ∧ s.compressed = [] ∧
      ∃ closed packed : List Chunk,
        produce init.writer (opsOf trace) = some (s.writer, closed) ∧
        (packed.filter hasBytes).Perm ((closed ++ [s.writer.chunk]).filter hasBytes) ∧
        (aligned → packed.filter hasBytes =
          (closed ++ [s.writer.chunk]).filter hasBytes) ∧
        s.file = packed.map compress ∧
        s.compressedSizes =
          init.compressedSizes ++ packed.map (fun chunk => (compress chunk).wasWritten) ∧
        s.uncompressedSizes =
          init.uncompressedSizes ++ packed.map (fun chunk => (compress chunk).wasRead) ∧
        ((∀ chunk ∈ packed, hasBytes chunk = true) ↔
          Along (step compress) (fun s label => packsEmpty s label = false) init
            trace) := by
  have hflags := hinv.flags
  have hserializer := hflags.finished_exited hphase
  obtain ⟨hcompressing, hcompressed⟩ := hflags.serializer_exited hserializer
  have hcompressor := hflags.doneCompressing hcompressing
  have huncompressed := (hflags.compressor_exited hcompressor).2
  obtain ⟨hheld, hfile⟩ :=
    hinv.toTracked.finished hphase hcompressor huncompressed hserializer hcompressed
  exact ⟨hheld, huncompressed, hcompressed, hfile⟩

/-! ## `finalize` returns -/

/-- The work left for a worker, where `load` is the work of one buffer. -/
def Worker.weight {α : Type} (load : Nat) : Worker α → Nat
  | .idle => 1
  | .busy _ => load
  | .exited => 0

/-- The steps left for `finalize`. -/
def Phase.weight : Phase → Nat
  | .running => 4
  | .pushed => 3
  | .fed => 2
  | .joined => 1
  | .finished => 0

/-- The work left once `finalize` has been called. -/
def weight (s : State) : Nat :=
  5 * s.uncompressed.length + s.compressor.weight 5 + 3 * s.compressed.length +
    s.serializer.weight 3 + s.phase.weight

/-- Once `finalize` has been called, no schedule goes on for ever. -/
theorem step_weight {label : Label} (hphase : s.phase ≠ .running)
    (hstep : step compress s label = some next) :
    weight next < weight s ∧ next.phase ≠ .running := by
  cases step_moved hstep with
  | op hrunning => exact absurd hrunning hphase
  | finalize hrunning => exact absurd hrunning hphase
  | feedDone hpushed => simp [weight, Phase.weight, hpushed]
  | joinCompressor hfed => simp [weight, Phase.weight, hfed]
  | joinSerializer hjoined => simp [weight, Phase.weight, hjoined]
  -- a chunk weighs less with every hand it has passed through
  | compressorTake hidle hqueue =>
      refine ⟨?_, hphase⟩
      simp only [weight, hidle, hqueue, List.length_append, List.length_singleton]
      split <;> simp only [Worker.weight] <;> omega
  | @compressorPut chunk hbusy =>
      refine ⟨?_, hphase⟩
      simp only [weight, packChunk, hbusy, Worker.weight]
      have hlength : (if s.multithreadedWrite = true then
          compress chunk :: s.compressed else s.compressed).length ≤
          s.compressed.length + 1 := by
        split <;> simp
      omega
  | compressorExit hidle => simp [weight, Worker.weight, hidle, hphase]
  | serializerTake hidle hqueue =>
      refine ⟨?_, hphase⟩
      simp only [weight, hidle, hqueue, List.length_append, List.length_singleton, Worker.weight]
      omega
  | serializerPut hbusy => simp [weight, Worker.weight, hbusy, hphase]
  | serializerExit hidle => simp [weight, Worker.weight, hidle, hphase]

/-- Once `finalize` has been called, some thread can move until it returns. -/
theorem step_enabled (compress : Chunk → Compressed) (hflags : Flags s)
    (hphase : s.phase ≠ .running) (hopen : s.phase ≠ .finished) :
    ∃ label, (step compress s label).isSome = true := by
  -- the compressor comes first, and then the serializer, which waits for it to leave
  cases hcompressor : s.compressor with
  | busy chunk => exact ⟨.compressorPut, by simp [step, compressorPut, hcompressor]⟩
  | idle =>
      cases hlast : s.uncompressed.getLast? with
      | some chunk =>
          exact ⟨.compressorTake, by simp [step, compressorTake, hcompressor, hlast]⟩
      | none =>
          have hempty : s.uncompressed = [] := List.getLast?_eq_none_iff.mp hlast
          by_cases hpushed : s.phase = .pushed
          · exact ⟨.feedDone, by simp [step, hpushed]⟩
          · have hfed : s.doneFeeding = true := hflags.feeding.mpr (by
              cases hp : s.phase <;> simp_all)
            exact ⟨.compressorExit, by
              simp [step, compressorExit, hcompressor, hempty, hfed]⟩
  | exited =>
      have hfed := (hflags.compressor_exited hcompressor).1
      rcases hflags.feeding.mp hfed with hfedPhase | hjoined | hfinished
      · exact ⟨.joinCompressor, by simp [step, hfedPhase, hcompressor]⟩
      · have hcompressing := hflags.compressing.mpr (Or.inl hjoined)
        cases hserializer : s.serializer with
        | busy item =>
            exact ⟨.serializerPut, by simp [step, serializerPut, hserializer]⟩
        | idle =>
            cases hlast : s.compressed.getLast? with
            | some item =>
                exact ⟨.serializerTake, by simp [step, serializerTake, hserializer, hlast]⟩
            | none =>
                have hempty : s.compressed = [] := List.getLast?_eq_none_iff.mp hlast
                exact ⟨.serializerExit, by
                  simp [step, serializerExit, hserializer, hempty, hcompressing]⟩
        | exited =>
            have hcompressed := (hflags.serializer_exited hserializer).2
            have huncompressed := (hflags.compressor_exited hcompressor).2
            exact ⟨.joinSerializer, by
              simp [step, hjoined, hserializer, hcompressed, huncompressed]⟩
      · exact absurd hfinished hopen

/-- **`finalize` returns.**  From any state in which it has been called, the
threads reach its end. -/
theorem finalize_returns (compress : Chunk → Compressed) (hflags : Flags s)
    (hphase : s.phase ≠ .running) :
    ∃ labels final, exec (step compress) s labels = some final ∧
      final.phase = .finished := by
  induction hweight : weight s using Nat.strong_induction_on generalizing s with
  | _ n ih =>
      by_cases hfinished : s.phase = .finished
      · exact ⟨[], s, rfl, hfinished⟩
      · obtain ⟨label, hlabel⟩ := step_enabled compress hflags hphase hfinished
        obtain ⟨next, hstep⟩ := Option.isSome_iff_exists.mp hlabel
        obtain ⟨hlt, hnext⟩ := step_weight hphase hstep
        obtain ⟨labels, final, hexec, hfinal⟩ :=
          ih (weight next) (hweight ▸ hlt) (step_flags hflags hstep) hnext rfl
        exact ⟨label :: labels, final,
          exec_cons_eq_some_iff.mpr ⟨next, hstep, hexec⟩, hfinal⟩

/-- No step changes the mode. -/
theorem step_modes {label : Label} (hstep : step compress s label = some next) :
    next.multithreadedCompress = s.multithreadedCompress ∧
      next.multithreadedWrite = s.multithreadedWrite := by
  cases step_moved hstep with
  | @op op writer handed =>
      obtain ⟨-, -, -, -, -, -, hmodes⟩ :=
        deliver_frame compress { s with writer := writer } handed
      exact hmodes
  | finalize =>
      obtain ⟨-, -, -, -, -, -, hmodes⟩ := closeChunk_frame compress s s.writer.chunk
      exact hmodes
  | _ => exact ⟨rfl, rfl⟩

theorem step_multithreadedCompress {label : Label}
    (hstep : step compress s label = some next) :
    next.multithreadedCompress = s.multithreadedCompress :=
  (step_modes hstep).1

/-- A condition that every state of a mode meets is met along its runs. -/
theorem along_of_mode (mode : Bool) {cond : State → Label → Prop}
    (hcond : ∀ s label, s.multithreadedCompress = mode → cond s label) {s : State}
    (hmode : s.multithreadedCompress = mode) (labels : List Label) :
    Along (step compress) cond s labels := by
  induction labels generalizing s with
  | nil => trivial
  | cons label labels ih =>
      exact ⟨hcond s label hmode,
        fun next hstep => ih ((step_multithreadedCompress hstep).trans hmode)⟩

/-- With the compressor thread in use nothing is ever spliced aside. -/
theorem along_of_multithreadedCompress (compress : Chunk → Compressed)
    (chunkSize : Nat) (multithreadedWrite : Bool) (labels : List Label) :
    Along (step compress) (fun s label => splicesAside s label = false)
      (State.init chunkSize true multithreadedWrite) labels := by
  refine along_of_mode true (fun s label hmode => ?_) rfl labels
  unfold splicesAside
  split <;> simp [hmode]

/-- With the compressor thread in use no empty chunk is ever compressed. -/
theorem along_packsEmpty_of_multithreadedCompress (compress : Chunk → Compressed)
    (chunkSize : Nat) (multithreadedWrite : Bool) (labels : List Label) :
    Along (step compress) (fun s label => packsEmpty s label = false)
      (State.init chunkSize true multithreadedWrite) labels := by
  refine along_of_mode true (fun s label hmode => ?_) rfl labels
  unfold packsEmpty
  split <;> simp [hmode]

end

/-! ## Main results -/

/-- **Chunk order in the default mode.**  `finalize` can be called exactly while
no chunk is kept back, and from then on every schedule of the threads leads to
its end.  The file then holds the non-empty chunks that the producer closed,
each of them once and in order; together they are the bytes written, the two
size lists follow the file, and the three queues are empty. -/
theorem default_mode_keeps_chunk_order (compress : Chunk → Compressed)
    (chunkSize : Nat) (labels : List Label) (s : State)
    (hrun : exec (step compress) (State.init chunkSize true true) labels = some s) :
    (s.phase = .running →
      ((step compress s .finalize).isSome = true ↔ s.writer.held = [])) ∧
    (s.phase ≠ .running → ∃ rest final,
      exec (step compress) s rest = some final ∧ final.phase = .finished) ∧
    (s.phase = .finished → ∃ closed,
      produce (Writer.new chunkSize) (opsOf labels) = some (s.writer, closed) ∧
      s.file = ((closed ++ [s.writer.chunk]).filter hasBytes).map
        compress ∧
      payload ((closed ++ [s.writer.chunk]).filter hasBytes) =
        streamOf (opsOf labels) ∧
      s.compressedSizes = s.file.map Compressed.wasWritten ∧
      s.uncompressedSizes = s.file.map Compressed.wasRead ∧
      s.writer.held = [] ∧ s.uncompressed = [] ∧ s.compressed = []) := by
  -- with a compressor thread nothing is packed aside
  have haside := along_of_multithreadedCompress compress chunkSize true labels
  have hinv := run_inv compress True (haside.mono fun _ _ h _ => h) hrun
  refine ⟨fun hphase => ?_, finalize_returns compress hinv.flags, fun hphase => ?_⟩
  · simp only [step, finalize, hphase, true_and]
    split <;> simp_all
  · obtain ⟨hheld, huncompressed, hcompressed, closed, packed, hproduce, -, horder, hfile,
      hcsizes, husizes, hclean⟩ := hinv.finished hphase
    have hpacked : packed = (closed ++ [s.writer.chunk]).filter hasBytes := by
      rw [← horder trivial]
      exact (List.filter_eq_self.mpr (hclean.mpr
        (along_packsEmpty_of_multithreadedCompress compress chunkSize true labels))).symm
    refine ⟨closed, hproduce, hpacked ▸ hfile, ?_, ?_, ?_, hheld, huncompressed,
      hcompressed⟩
    · rw [payload_filter]
      exact produce_stream hproduce hheld
    · rw [hcsizes, hfile, List.map_map]
      rfl
    · rw [husizes, hfile, List.map_map]
      rfl

/-- A codec that stores the bytes as they are. -/
def plain (chunk : Chunk) : Compressed :=
  ⟨chunk.bytes.length, chunk.bytes.length, chunk.bytes⟩

/-- Two chunks of four bytes and a rest, compressed while `finalize` runs. -/
def defaultRun : List Label :=
  [.op (.block [1, 2, 3]), .op (.later [4, 5]), .op (.block [6, 7, 8]), .op (.poke 3 [9, 9]),
    .op .thaw, .compressorTake, .finalize, .compressorPut, .feedDone, .compressorTake,
    .serializerTake, .compressorPut, .compressorTake, .compressorPut, .serializerPut,
    .compressorExit, .joinCompressor, .serializerTake, .serializerPut, .serializerTake,
    .serializerPut, .serializerExit, .joinSerializer]

theorem default_mode_keeps_chunk_order_defaultRun :
    ∃ s, exec (step plain) (State.init 4 true true) defaultRun = some s ∧
      s.phase = .finished ∧ s.uncompressed = [] ∧
      (s.file.map Compressed.body).flatten = [1, 2, 3, 9, 9, 6, 7, 8] := by
  have hrun : (exec (step plain) (State.init 4 true true) defaultRun).isSome = true := by
    decide
  have hphase : ((exec (step plain) (State.init 4 true true) defaultRun).get hrun).phase =
      .finished := by
    decide +revert
  obtain ⟨closed, -, -, -, -, -, -, hempty, -⟩ :=
    (default_mode_keeps_chunk_order plain 4 defaultRun _
      (Option.some_get hrun).symm).2.2 hphase
  refine ⟨_, (Option.some_get hrun).symm, hphase, hempty, ?_⟩
  clear hempty hphase
  decide +revert

/-- A writer that is still frozen, with a chunk kept back, cannot be finalized:
the assertion of `finalize` fails. -/
theorem finalize_refused_while_chunks_kept :
    ∃ s, exec (step plain) (State.init 4 true true)
        [.op (.block [1, 2, 3]), .op .freeze, .op (.block [4, 5])] = some s ∧
      s.phase = .running ∧ s.writer.held ≠ [] ∧ step plain s .finalize = none :=
  ⟨_, rfl, rfl, by decide, by decide⟩

/-- **The synchronous modes.**  For any setting of the two flags, `finalize` comes to its end
from every state in which it has been called; and in every run in which no `thaw` splices a
kept chunk into the compressor's queue while the producer compresses its chunks itself, the
chunks in the file are then together the bytes in the order in which they were written. -/
theorem modes_keep_stream_order (compress : Chunk → Compressed) (chunkSize : Nat)
    (multithreadedCompress multithreadedWrite : Bool) (labels : List Label) (s : State)
    (haside : Along (step compress) (fun s label => splicesAside s label = false)
      (State.init chunkSize multithreadedCompress multithreadedWrite) labels)
    (hrun : exec (step compress)
      (State.init chunkSize multithreadedCompress multithreadedWrite) labels = some s) :
    (s.phase ≠ .running → ∃ rest final,
      exec (step compress) s rest = some final ∧ final.phase = .finished) ∧
    (s.phase = .finished → ∃ chunks : List Chunk, s.file = chunks.map compress ∧
      payload chunks = streamOf (opsOf labels)) := by
  have hinv := run_inv compress True (haside.mono fun _ _ h _ => h) hrun
  refine ⟨finalize_returns compress hinv.flags, fun hphase => ?_⟩
  obtain ⟨hheld, -, -, closed, packed, hproduce, -, horder, hfile, -⟩ :=
    hinv.finished hphase
  refine ⟨packed, hfile, ?_⟩
  rw [← payload_filter, horder trivial, payload_filter]
  exact produce_stream hproduce hheld

/-- A packet inside one chunk and one that starts a new chunk, with both worker
threads out of use. -/
def synchronousRun : List Label :=
  [.op (.block [1]), .op (.later [0, 0, 0, 0]), .op (.poke 1 [5, 0, 0, 0]), .op .thaw,
    .op (.block [2]), .op (.later [0, 0, 0, 0]), .op (.poke 6 [5, 0, 0, 0]), .op .thaw,
    .finalize, .feedDone, .compressorExit, .joinCompressor, .serializerExit,
    .joinSerializer]

theorem modes_keep_stream_order_synchronousRun :
    ∃ s, exec (step plain) (State.init 6 false false) synchronousRun = some s ∧
      ∃ chunks : List Chunk, s.file = chunks.map plain ∧
        payload chunks = [1, 5, 0, 0, 0, 2, 5, 0, 0, 0] := by
  have hrun : (exec (step plain) (State.init 6 false false) synchronousRun).isSome =
      true := by
    decide
  refine ⟨_, (Option.some_get hrun).symm, ?_⟩
  exact (modes_keep_stream_order plain 6 false false synchronousRun _ (by decide)
    (Option.some_get hrun).symm).2 (by decide +revert)

/-- A packet whose payload does not fit the chunk of its size word, followed by
another packet.  The kept chunk waits for the compressor thread while the
producer compresses and the serializer writes the chunk behind it. -/
def overtakingRun : List Label :=
  [.op (.block [1]), .op (.later [0, 0, 0, 0]), .op (.block [7, 7, 7, 7]),
    .op (.poke 1 [9, 0, 0, 0]), .op .thaw,
    .op (.block [2]), .op (.later [0, 0, 0, 0]), .op (.poke 10 [5, 0, 0, 0]), .op .thaw,
    .serializerTake, .serializerPut, .compressorTake, .compressorPut, .finalize,
    .feedDone, .compressorExit, .joinCompressor, .serializerTake, .serializerPut,
    .serializerTake, .serializerPut, .serializerExit, .joinSerializer]

theorem synchronous_compress_reorders_chunks :
    ∃ s, exec (step plain) (State.init 6 false true) overtakingRun = some s ∧
      s.phase = .finished ∧
      (s.file.map Compressed.body).flatten =
        [7, 7, 7, 7, 2, 1, 9, 0, 0, 0, 5, 0, 0, 0] ∧
      streamOf (opsOf overtakingRun) = [1, 9, 0, 0, 0, 7, 7, 7, 7, 2, 5, 0, 0, 0] :=
  ⟨_, rfl, rfl, by decide, by decide⟩

end Pipeline
end Lavatube
