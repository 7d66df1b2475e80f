import Lavatube.Pipeline

/-!
# A writer that is used again

`set` may be called again on a writer whose `finalize` has returned.  `finalize` puts a
fresh chunk in place, "ready to go again", but keeps `uidx`, the position in the old one,
and both flags that tell the workers to leave; and `set` launches new workers.

The producer follows its program, one use after the other; the workers move at any time.

* `Delivers` — under every schedule the program can be brought to its end, and then the
  file is read back as what was written.
* `second_use_length` — a second use that comes to its end has written what was left in the
  fresh chunk as well.
* `worker_leaves_early` — with a worker in use, the second use need not come to its end.
* `never_reusable` — no two uses of one writer are both delivered.
-/

namespace Lavatube
namespace Reuse

open FileWriter Pipeline Transition Overwrite

/-- What the producer does: the writes, and the steps of `finalize`. -/
def program (ops : List Op) : List Label :=
  ops.map Label.op ++ [Label.finalize, .feedDone, .joinCompressor, .joinSerializer]

/-- An operation of a use that starts at stream position `base`: its pointers point to what
is written in this use. -/
def behind (base : Nat) : Op → Op
  | .poke pos bytes => .poke (base + pos) bytes
  | op => op

/-- The steps of the producer. -/
def isProducer : Label → Bool
  | .op _ | .finalize | .feedDone | .joinCompressor | .joinSerializer => true
  | _ => false

/-- A writer in use, and what its producer still has to do. -/
structure Use where
  state : State
  program : List Label

/-- A block is written while the position in the chunk lies behind its end: the difference of
`check_space` wraps, so that no space is made, and the assertion behind the copy fails. -/
def overrun (s : State) : Label → Bool
  | .op (.block _) | .op (.later _) => s.writer.capacity < s.writer.chunk.bytes.length
  | _ => false

section

variable (compress : Chunk → Compressed) (unpack : Compressed → List UInt8)

/-- One step of any thread, with the producer at its program. -/
def useStep (u : Use) (label : Label) : Option Use :=
  if isProducer label then
    match u.program with
    | [] => none
    | first :: rest =>
        if first = label ∧ overrun u.state label = false then
          (step compress u.state label).map fun s => ⟨s, rest⟩
        else
          none
  else
    (step compress u.state label).map fun s => ⟨s, u.program⟩

/-- What `file_reader` makes of a file: the bytes of its chunks, one after the other.  A stream
without bytes is refused by the assertion `uncompressed_size > 0`. -/
def readFile (file : List Compressed) : Option (List UInt8) :=
  let bytes := (file.map unpack).flatten
  if bytes = [] then none else some bytes

/-- From every state that a schedule can reach, the program can be brought to its end, and
at its end the file is read back as the bytes. -/
def Delivers (start : Use) (bytes : List UInt8) : Prop :=
  ∀ labels u, exec (useStep compress) start labels = some u →
    (∃ more final, exec (useStep compress) u more = some final ∧ final.program = []) ∧
      (u.program = [] → readFile unpack u.state.file = some bytes)

/-- The second `set`.  `stray` is what stands in the fresh chunk up to `uidx`. -/
def reopen (s : State) (stray : List UInt8) : State :=
  { s with
    writer := { s.writer with
      chunk := ⟨s.writer.chunk.start, stray⟩
      capacity := s.writer.chunkSize }
    compressor := .idle
    serializer := .idle
    file := []
    phase := .running }

/-- The second use of a writer whose first use has ended in `u`. -/
def secondUse (u : Use) (stray : List UInt8) (ops : List Op) : Use :=
  ⟨reopen u.state stray, program (ops.map (behind u.state.writer.uncompressedBytes))⟩

/-- Two uses of one writer, each of which delivers what is written in it, whatever stands in
fresh memory. -/
def Reusable (chunkSize : Nat) (multithreadedCompress multithreadedWrite : Bool)
    (first second : List Op) : Prop :=
  let start : Use :=
    ⟨State.init chunkSize multithreadedCompress multithreadedWrite, program first⟩
  Delivers compress unpack start (streamOf first) ∧
    ∀ labels u, exec (useStep compress) start labels = some u → u.program = [] →
      ∀ stray, stray.length = u.state.writer.chunk.bytes.length →
        Delivers compress unpack (secondUse u stray second) (streamOf second)

end

/-! ## The steps -/

section

variable {compress : Chunk → Compressed} {unpack : Compressed → List UInt8}
variable {u v : Use} {s next : State} {label : Label}

/-- What a step of a use is. -/
theorem useStep_eq_some (hstep : useStep compress u label = some v) :
    step compress u.state label = some v.state ∧
      ((isProducer label = true ∧ u.program = label :: v.program ∧
          overrun u.state label = false) ∨
        (isProducer label = false ∧ v.program = u.program)) := by
  unfold useStep at hstep
  split at hstep
  · case _ hproducer =>
      split at hstep
      · cases hstep
      · case _ first rest hprogram =>
          split at hstep
          · case _ hfirst =>
              obtain ⟨s, hs, rfl⟩ := Option.map_eq_some_iff.mp hstep
              rw [hfirst.1] at hprogram
              exact ⟨hs, Or.inl ⟨hproducer, hprogram, hfirst.2⟩⟩
          · cases hstep
  · case _ hworker =>
      obtain ⟨s, hs, rfl⟩ := Option.map_eq_some_iff.mp hstep
      exact ⟨hs, Or.inr ⟨by simpa using hworker, rfl⟩⟩

/-- A run of a use is a run of the pipeline. -/
theorem use_run {labels : List Label} (hrun : exec (useStep compress) u labels = some v) :
    exec (step compress) u.state labels = some v.state := by
  induction labels generalizing u with
  | nil =>
      cases hrun
      rfl
  | cons label labels ih =>
      obtain ⟨middle, hmiddle, hrest⟩ := exec_cons_eq_some_iff.mp hrun
      exact exec_cons_eq_some_iff.mpr
        ⟨middle.state, (useStep_eq_some hmiddle).1, ih hrest⟩

/-- The operations of a use are taken from its program. -/
theorem use_ops {labels : List Label} (hrun : exec (useStep compress) u labels = some v) :
    opsOf u.program = opsOf labels ++ opsOf v.program := by
  induction labels generalizing u with
  | nil =>
      cases hrun
      rfl
  | cons label labels ih =>
      obtain ⟨middle, hmiddle, hrest⟩ := exec_cons_eq_some_iff.mp hrun
      have hcons (rest : List Label) : opsOf (label :: rest) = opsOf [label] ++ opsOf rest :=
        List.filterMap_append (l := [label])
      rw [hcons, List.append_assoc, ← ih hrest]
      rcases (useStep_eq_some hmiddle).2 with ⟨-, hprogram, -⟩ | ⟨hworker, hprogram⟩
      · rw [hprogram, hcons]
      · have hnone : opsOf [label] = [] := by cases label <;> first | rfl | cases hworker
        rw [hprogram, hnone, List.nil_append]

@[simp] theorem opsOf_program (ops : List Op) : opsOf (program ops) = ops := by
  simp [opsOf, program, List.filterMap_append, List.filterMap_map]

/-- A program that has come to its end has run all its operations. -/
theorem use_ops_of_end {labels : List Label} (hend : v.program = [])
    (hrun : exec (useStep compress) u labels = some v) : opsOf labels = opsOf u.program := by
  have hops := use_ops hrun
  rw [hend] at hops
  exact (hops.trans (List.append_nil _)).symm

/-- Only an operation touches the writer. -/
theorem step_writer (hlabel : ∀ op, label ≠ .op op)
    (hstep : step compress s label = some next) : next.writer = s.writer := by
  cases step_moved hstep with
  | op => exact absurd rfl (hlabel _)
  | finalize =>
      obtain ⟨-, -, -, -, -, hwriter, -⟩ := closeChunk_frame compress s s.writer.chunk
      exact hwriter
  | _ => rfl

/-- The worker steps do not touch the progress of `finalize`. -/
theorem worker_phase (hworker : isProducer label = false)
    (hstep : step compress s label = some next) : next.phase = s.phase := by
  cases step_moved hstep with
  | op | finalize | feedDone | joinCompressor | joinSerializer => cases hworker
  | _ => rfl

/-- The program and the progress of `finalize` belong together. -/
def Shape (u : Use) : Prop :=
  match u.state.phase with
  | .running => ∃ ops, u.program = program ops
  | .pushed => u.program = [.feedDone, .joinCompressor, .joinSerializer]
  | .fed => u.program = [.joinCompressor, .joinSerializer]
  | .joined => u.program = [.joinSerializer]
  | .finished => u.program = []

theorem finalize_phase (hstep : step compress s .finalize = some next) :
    s.phase = .running ∧
      next = { closeChunk compress s s.writer.chunk with phase := .pushed } := by
  cases step_moved hstep with
  | finalize hphase => exact ⟨hphase, rfl⟩

theorem op_phase {op : Op} (hstep : step compress s (.op op) = some next) :
    next.phase = s.phase := by
  cases step_moved hstep with
  | @op _ writer handed =>
      obtain ⟨-, -, -, -, hphase, -⟩ := deliver_frame compress { s with writer := writer } handed
      exact hphase

/-- The phase behind the later steps of `finalize`. -/
theorem later_phase (hstep : step compress s label = some next) :
    (label = .feedDone → next.phase = .fed) ∧ (label = .joinCompressor → next.phase = .joined) ∧
      (label = .joinSerializer → next.phase = .finished) := by
  cases step_moved hstep with
  | feedDone | joinCompressor | joinSerializer => simp
  | _ => exact ⟨nofun, nofun, nofun⟩

theorem program_cons_eq {ops : List Op} {rest : List Label}
    (hprogram : program ops = label :: rest) :
    (label = .finalize ∧ rest = [.feedDone, .joinCompressor, .joinSerializer]) ∨
      ∃ op more, label = .op op ∧ rest = program more := by
  cases ops with
  | nil =>
      cases hprogram
      exact Or.inl ⟨rfl, rfl⟩
  | cons op more =>
      cases hprogram
      exact Or.inr ⟨op, more, rfl, rfl⟩

theorem shape_step (hshape : Shape u) (hstep : useStep compress u label = some v) :
    Shape v := by
  obtain ⟨hs, ⟨-, hprogram, -⟩ | ⟨hworker, hprogram⟩⟩ := useStep_eq_some hstep
  · unfold Shape at hshape
    cases hphase : u.state.phase with
    | running =>
        rw [hphase] at hshape
        obtain ⟨ops, hops⟩ := hshape
        rw [hops] at hprogram
        rcases program_cons_eq hprogram with ⟨rfl, hrest⟩ | ⟨op, more, rfl, hrest⟩
        · have hnext : v.state.phase = .pushed := by rw [(finalize_phase hs).2]
          simp only [Shape, hnext]
          exact hrest
        · have hnext : v.state.phase = .running := (op_phase hs).trans hphase
          simp only [Shape, hnext]
          exact ⟨more, hrest⟩
    | pushed =>
        rw [hphase] at hshape
        obtain ⟨rfl, hrest⟩ := List.cons.inj (hshape.symm.trans hprogram)
        have hnext : v.state.phase = .fed := (later_phase hs).1 rfl
        simp only [Shape, hnext]
        exact hrest.symm
    | fed =>
        rw [hphase] at hshape
        obtain ⟨rfl, hrest⟩ := List.cons.inj (hshape.symm.trans hprogram)
        have hnext : v.state.phase = .joined := (later_phase hs).2.1 rfl
        simp only [Shape, hnext]
        exact hrest.symm
    | joined =>
        rw [hphase] at hshape
        obtain ⟨rfl, hrest⟩ := List.cons.inj (hshape.symm.trans hprogram)
        have hnext : v.state.phase = .finished := (later_phase hs).2.2 rfl
        simp only [Shape, hnext]
        exact hrest.symm
    | finished =>
        rw [hphase] at hshape
        rw [hshape] at hprogram
        cases hprogram
  · unfold Shape at hshape ⊢
    rw [worker_phase hworker hs, hprogram]
    exact hshape

theorem shape_run {labels : List Label} (hshape : Shape u)
    (hrun : exec (useStep compress) u labels = some v) : Shape v :=
  exec_invariant_of_step (fun _ _ _ => shape_step) hshape hrun

/-- The program has come to its end exactly when `finalize` has returned. -/
theorem Shape.finished (hshape : Shape u) (hprogram : u.program = []) :
    u.state.phase = .finished := by
  unfold Shape at hshape
  cases hphase : u.state.phase with
  | running =>
      rw [hphase] at hshape
      obtain ⟨ops, hops⟩ := hshape
      simp [hprogram, program] at hops
  | finished => rfl
  | pushed | fed | joined => simp [hphase, hprogram] at hshape

/-! ## A worker that has left -/

/-- **A full queue is not emptied** by a worker that has left, and the assertion at the end
of `finalize` fails. -/
theorem never_ends (dead full : State → Prop)
    (hdead : ∀ s label next, dead s → step compress s label = some next →
      dead next ∧ (full s ∨ label = .finalize → full next))
    (hend : ∀ s, full s → step compress s .joinSerializer = none)
    (front : List Label) {labels : List Label} (hstart : dead u.state)
    (hprogram : u.program = front ++ [.joinSerializer])
    (hpending : .finalize ∈ front ∨ full u.state)
    (hrun : exec (useStep compress) u labels = some v) : v.program ≠ [] := by
  induction labels generalizing u front with
  | nil =>
      cases hrun
      rw [hprogram]
      simp
  | cons label labels ih =>
      obtain ⟨middle, hmiddle, hrest⟩ := exec_cons_eq_some_iff.mp hrun
      obtain ⟨hs, hmoves⟩ := useStep_eq_some hmiddle
      obtain ⟨hdeadNext, hfull⟩ := hdead _ _ _ hstart hs
      rcases hmoves with ⟨-, hnext, -⟩ | ⟨-, hsame⟩
      · rw [hprogram] at hnext
        cases front with
        | nil =>
            obtain ⟨rfl, -⟩ := List.cons.inj hnext
            have hjam := hpending.resolve_left List.not_mem_nil
            rw [hend _ hjam] at hs
            cases hs
        | cons first rest =>
            obtain ⟨rfl, hlater⟩ := List.cons.inj hnext
            refine ih rest hdeadNext hlater.symm ?_ hrest
            rcases hpending with hmem | hjam
            · rcases List.mem_cons.mp hmem with hfirst | hmem
              · exact Or.inr (hfull (Or.inr hfirst.symm))
              · exact Or.inl hmem
            · exact Or.inr (hfull (Or.inl hjam))
      · refine ih front hdeadNext (hsame.trans hprogram) ?_ hrest
        rcases hpending with hmem | hjam
        · exact Or.inl hmem
        · exact Or.inr (hfull (Or.inl hjam))

/-- The compressor has left: what is queued for it stays queued, and `finalize` queues the
last chunk. -/
theorem compressor_gone (hmode : s.multithreadedCompress = true)
    (hexited : s.compressor = .exited) (hstep : step compress s label = some next) :
    next.compressor = .exited ∧
      (s.uncompressed ≠ [] ∨ label = .finalize → next.uncompressed ≠ []) := by
  cases step_moved hstep with
  | @op op writer handed =>
      obtain ⟨-, hcompressor, -⟩ := deliver_frame compress { s with writer := writer } handed
      refine ⟨hcompressor.trans hexited, fun hqueued => ?_⟩
      have hqueued := hqueued.resolve_right (by simp)
      cases handed with
      | nothing => exact hqueued
      | closed chunk => simp [deliver, closeChunk, hmode]
      | spliced chunks => simp [deliver, hqueued]
  | finalize =>
      obtain ⟨-, hcompressor, -⟩ := closeChunk_frame compress s s.writer.chunk
      exact ⟨hcompressor.trans hexited, fun _ => by simp [closeChunk, hmode]⟩
  | compressorTake hin | compressorPut hin | compressorExit hin =>
      rw [hexited] at hin
      cases hin
  | _ => exact ⟨hexited, fun hqueued => hqueued.resolve_right (by simp)⟩

/-- The serializer has left, and the producer compresses its chunks itself. -/
theorem serializer_gone (hcompress : s.multithreadedCompress = false)
    (hwrite : s.multithreadedWrite = true) (hexited : s.serializer = .exited)
    (hstep : step compress s label = some next) :
    next.serializer = .exited ∧
      (s.compressed ≠ [] ∨ label = .finalize → next.compressed ≠ []) := by
  cases step_moved hstep with
  | @op op writer handed =>
      obtain ⟨-, -, -, hserializer, -⟩ := deliver_frame compress { s with writer := writer } handed
      refine ⟨hserializer.trans hexited, fun hqueued => ?_⟩
      have hqueued := hqueued.resolve_right (by simp)
      cases handed with
      | nothing => exact hqueued
      | closed chunk => simp [deliver, closeChunk, packChunk, hcompress, hwrite]
      | spliced chunks => exact hqueued
  | finalize =>
      obtain ⟨-, -, -, hserializer, -⟩ := closeChunk_frame compress s s.writer.chunk
      exact ⟨hserializer.trans hexited,
        fun _ => by simp [closeChunk, packChunk, hcompress, hwrite]⟩
  | compressorPut => exact ⟨hexited, fun _ => by simp [packChunk, hwrite]⟩
  | serializerTake hin | serializerPut hin | serializerExit hin =>
      rw [hexited] at hin
      cases hin
  | _ => exact ⟨hexited, fun hqueued => hqueued.resolve_right (by simp)⟩

theorem run_modes {labels : List Label} (hrun : exec (step compress) s labels = some next) :
    next.multithreadedCompress = s.multithreadedCompress ∧
      next.multithreadedWrite = s.multithreadedWrite := by
  induction labels generalizing s with
  | nil =>
      cases hrun
      exact ⟨rfl, rfl⟩
  | cons label labels ih =>
      obtain ⟨middle, hstep, hrest⟩ := exec_cons_eq_some_iff.mp hrun
      obtain ⟨hcompress, hwrite⟩ := step_modes hstep
      obtain ⟨hlaterCompress, hlaterWrite⟩ := ih hrest
      exact ⟨hlaterCompress.trans hcompress, hlaterWrite.trans hwrite⟩

/-! ## The first use -/

/-- What the first use leaves behind. -/
theorem first_use_spec {chunkSize : Nat} {multithreadedCompress multithreadedWrite : Bool}
    {ops : List Op} {labels : List Label}
    (hrun : exec (useStep compress)
      ⟨State.init chunkSize multithreadedCompress multithreadedWrite, program ops⟩
      labels = some u) (hend : u.program = []) :
    u.state.multithreadedCompress = multithreadedCompress ∧
      u.state.multithreadedWrite = multithreadedWrite ∧
      u.state.writer.held = [] ∧ u.state.uncompressed = [] ∧ u.state.compressed = [] ∧
      u.state.doneFeeding = true ∧ u.state.doneCompressing = true ∧
      ∃ closed, produce (Writer.new chunkSize) ops = some (u.state.writer, closed) := by
  have hshape : Shape
      ⟨State.init chunkSize multithreadedCompress multithreadedWrite, program ops⟩ :=
    ⟨ops, rfl⟩
  have hphase := (shape_run hshape hrun).finished hend
  have hops := use_ops_of_end hend hrun
  have hexec := use_run hrun
  have hinv := run_inv compress False
    ((along_true _ _ labels).mono fun _ _ _ h => h.elim) hexec
  obtain ⟨hheld, huncompressed, hcompressed, closed, -, hproduce, -⟩ := hinv.finished hphase
  rw [hops, opsOf_program] at hproduce
  obtain ⟨hcompress, hwrite⟩ := run_modes hexec
  exact ⟨hcompress, hwrite, hheld, huncompressed, hcompressed,
    hinv.flags.feeding.mpr (Or.inr (Or.inr hphase)),
    hinv.flags.compressing.mpr (Or.inr hphase), closed, hproduce⟩

/-- A chunk without bytes is the first one: space is only made for a block that has bytes. -/
def Untouched (w : Writer) : Prop := w.chunk.bytes = [] → w.uncompressedBytes = 0

theorem put_untouched {w : Writer} (huntouched : Untouched w) (bytes : List UInt8) :
    Untouched ((checkSpace w bytes.length).1.put bytes) := by
  intro hempty
  obtain rfl : bytes = [] := (List.append_eq_nil_iff.mp hempty).2
  have hsame : (checkSpace w 0).1 = w := by simp [checkSpace]
  rw [List.length_nil, hsame] at hempty ⊢
  have hchunk : w.chunk.bytes = [] := (List.append_eq_nil_iff.mp hempty).1
  simpa [Writer.put, Writer.uncompressedBytes, Chunk.stop] using huntouched hchunk

theorem op_untouched {base : Nat} {w w' : Writer} {op : Op} {handed : Handed}
    (hwf : w.WF base) (huntouched : Untouched w) (hrun : op.run w = some (w', handed)) :
    Untouched w' := by
  cases op with
  | block bytes | later bytes =>
      simp only [Op.run] at hrun
      split at hrun <;> cases hrun
      exact put_untouched huntouched bytes
  | poke pos bytes =>
      simp only [Op.run] at hrun
      split at hrun <;> cases hrun
      case _ hpoke =>
        obtain ⟨-, -, -, -, hstop⟩ := poke_spec hwf hpoke
        intro hempty
        unfold poke at hpoke
        split at hpoke <;> cases hpoke
        case _ hchunks =>
          have hlengths := pokeChunks_lengths hchunks
          rw [List.map_cons, List.map_cons, List.cons.injEq] at hlengths
          rw [hstop]
          exact huntouched (List.length_eq_zero_iff.mp
            (hlengths.1.symm.trans (List.length_eq_zero_iff.mpr hempty)))
  | freeze =>
      cases hrun
      exact huntouched
  | thaw =>
      simp only [Op.run, FileWriter.thaw] at hrun
      split at hrun <;> cases hrun
      · exact huntouched
      · exact huntouched

theorem produce_untouched {done : List UInt8} {w w' : Writer} {ops : List Op}
    {closed : List Chunk} (hwf : w.WF done.length) (huntouched : Untouched w)
    (hops : produce w ops = some (w', closed)) : Untouched w' := by
  induction ops generalizing w done closed with
  | nil =>
      cases hops
      exact huntouched
  | cons op ops ih =>
      simp only [produce] at hops
      split at hops
      · cases hops
      · case _ middle handed hop =>
          split at hops
          · cases hops
          · case _ rest hrest =>
              cases hops
              exact ih (Op.run_spec hwf hop).1 (op_untouched hwf huntouched hop) hrest

/-- **`uidx` is not reset.**  Behind a use that has written bytes it is not 0. -/
theorem chunk_not_empty {chunkSize : Nat} {w : Writer} {ops : List Op} {closed : List Chunk}
    (hops : produce (Writer.new chunkSize) ops = some (w, closed))
    (hwritten : streamOf ops ≠ []) : w.chunk.bytes ≠ [] := by
  intro hempty
  have hwf : (Writer.new chunkSize).WF ([] : List UInt8).length := Writer.wf_new chunkSize
  have hnone := produce_untouched hwf (fun _ => rfl) hops hempty
  rw [produce_uncompressedBytes hops] at hnone
  exact hwritten (List.length_eq_zero_iff.mp hnone)

/-! ## The second use -/

/-- How far a use has come when its workers have been joined. -/
structure Ends (s : State) : Prop where
  joined : s.phase = .joined ∨ s.phase = .finished → s.compressor = .exited
  finished : s.phase = .finished →
    s.serializer = .exited ∧ s.uncompressed = [] ∧ s.compressed = []

theorem ends_step (hends : Ends s) (hstep : step compress s label = some next) :
    Ends next := by
  cases step_moved hstep with
  | @op _ writer handed hphase =>
      obtain ⟨-, -, -, -, hsame, -⟩ := deliver_frame compress { s with writer := writer } handed
      have hrunning := hsame.trans hphase
      exact ⟨by simp [hrunning], by simp [hrunning]⟩
  | finalize | feedDone => exact ⟨by simp, by simp⟩
  | joinCompressor hphase hexited => exact ⟨fun _ => hexited, by simp⟩
  | joinSerializer hphase hexited huncompressed hcompressed =>
      exact ⟨fun _ => hends.joined (Or.inl hphase), fun _ => ⟨hexited, huncompressed, hcompressed⟩⟩
  | compressorTake hin | compressorPut hin =>
      exact ⟨fun h => absurd (hends.joined h) (by simp [hin]),
        fun h => absurd (hends.joined (Or.inr h)) (by simp [hin])⟩
  | compressorExit => exact ⟨fun _ => rfl, hends.finished⟩
  | serializerTake hin | serializerPut hin | serializerExit hin =>
      exact ⟨hends.joined, fun h => absurd (hends.finished h).1 (by simp [hin])⟩

/-- The kept chunks and the current one lie end to end, whatever the size of the buffer. -/
structure Chained (base : Nat) (w : Writer) : Prop where
  linked : Linked base (w.chunk :: w.held) w.uncompressedBytes
  held_nil : w.holding = false → w.held = []

/-- An operation that writes no block does not look at the size of the buffer. -/
theorem op_run_capacity {w w' : Writer} {op : Op} {handed : Handed} (capacity : Nat)
    (hblock : ∀ bytes, op ≠ .block bytes ∧ op ≠ .later bytes)
    (hrun : op.run w = some (w', handed)) :
    op.run { w with capacity := capacity } = some ({ w' with capacity := capacity }, handed) := by
  cases op with
  | block bytes => exact absurd rfl (hblock bytes).1
  | later bytes => exact absurd rfl (hblock bytes).2
  | poke pos bytes =>
      simp only [Op.run, FileWriter.poke] at hrun ⊢
      cases hchunks : pokeChunks pos bytes (w.chunk :: w.held) with
      | none => simp [hchunks] at hrun
      | some chunks =>
          cases chunks with
          | nil => simp [hchunks] at hrun
          | cons chunk held =>
              rw [hchunks] at hrun
              cases hrun
              rfl
  | freeze =>
      cases hrun
      rfl
  | thaw =>
      simp only [Op.run, FileWriter.thaw] at hrun ⊢
      split at hrun <;> cases hrun <;> simp [*]

/-- **An operation of a use** adds to the stream what it writes, also behind a chunk that is
longer than its buffer. -/
theorem op_chained {done : List UInt8} {op : Op} {writer : Writer} {handed : Handed}
    (hchained : Chained done.length s.writer) (hinside : overrun s (.op op) = false)
    (hrun : op.run s.writer = some (writer, handed)) :
    Chained (done ++ content handed.chunks).length writer ∧
      done ++ content handed.chunks ++ writer.pending = op.effect (done ++ s.writer.pending) := by
  by_cases hfits : s.writer.chunk.bytes.length ≤ s.writer.capacity
  · obtain ⟨hwf, hstream⟩ := Op.run_spec ⟨hchained.linked, hfits, hchained.held_nil⟩ hrun
    exact ⟨⟨hwf.linked, hwf.held_nil⟩, hstream⟩
  · have hblock (bytes : List UInt8) : op ≠ .block bytes ∧ op ≠ .later bytes := by
      constructor <;> rintro rfl <;> simp [overrun] at hinside <;> omega
    obtain ⟨hwf, hstream⟩ := Op.run_spec
      (w := { s.writer with capacity := s.writer.chunk.bytes.length })
      ⟨hchained.linked, le_rfl, hchained.held_nil⟩ (op_run_capacity _ hblock hrun)
    exact ⟨⟨hwf.linked, hwf.held_nil⟩, hstream⟩

/-- The stream behind `done`: what has left the producer and what has not. -/
def Streamed (done : List UInt8) (init : Writer) (trace : List Label) (u : Use) : Prop :=
  ∃ closed, produce init (opsOf trace) = some (u.state.writer, closed) ∧
    Chained (done ++ payload closed).length u.state.writer ∧
    done ++ payload closed ++ u.state.writer.pending =
      (opsOf trace).foldl Op.effect (done ++ init.pending)

theorem streamed_step {done : List UInt8} {init : Writer} {trace : List Label}
    (hstreamed : Streamed done init trace u) (hstep : useStep compress u label = some v) :
    Streamed done init (trace ++ [label]) v := by
  obtain ⟨closed, hproduce, hchained, hstream⟩ := hstreamed
  obtain ⟨hs, hmoves⟩ := useStep_eq_some hstep
  by_cases hop : ∃ op, label = .op op
  · obtain ⟨op, rfl⟩ := hop
    have hinside := (hmoves.resolve_right (by simp [isProducer])).2.2
    generalize hnext : v.state = next at hs
    cases step_moved hs with
    | @op _ writer handed hphase hrun =>
        obtain ⟨-, -, -, -, -, hwriter, -⟩ :=
          deliver_frame compress { u.state with writer := writer } handed
        have hwriter : v.state.writer = writer := by rw [hnext, hwriter]
        obtain ⟨hchained', hstream'⟩ := op_chained hchained hinside hrun
        have hops : opsOf (trace ++ [.op op]) = opsOf trace ++ [op] := by simp [opsOf]
        refine ⟨closed ++ handed.chunks.reverse, ?_, ?_, ?_⟩
        · rw [hops, hwriter]
          exact produce_snoc hproduce hrun
        · rw [hwriter, payload_append, payload_reverse, ← List.append_assoc]
          exact hchained'
        · rw [hops, hwriter, payload_append, payload_reverse, ← List.append_assoc, hstream',
            hstream, List.foldl_append, List.foldl_cons, List.foldl_nil]
  · have hlabel (op : Op) : label ≠ .op op := fun h => hop ⟨op, h⟩
    have hops : opsOf (trace ++ [label]) = opsOf trace := by
      cases label <;> simp_all [opsOf]
    refine ⟨closed, ?_, ?_, ?_⟩
    · rw [hops, step_writer hlabel hs, hproduce]
    · rw [step_writer hlabel hs]
      exact hchained
    · rw [hops, step_writer hlabel hs, hstream]

theorem effect_behind (front stream : List UInt8) (op : Op) :
    (behind front.length op).effect (front ++ stream) = front ++ op.effect stream := by
  cases op with
  | block bytes | later bytes => exact List.append_assoc ..
  | poke pos bytes =>
      simp only [behind, Op.effect]
      rw [overwrite_append_right (Nat.le_add_right ..), Nat.add_sub_cancel_left]
  | freeze | thaw => rfl

/-- The second use writes behind whatever is there. -/
theorem foldl_effect_behind (front stream : List UInt8) (ops : List Op) :
    (ops.map (behind front.length)).foldl Op.effect (front ++ stream) =
      front ++ ops.foldl Op.effect stream := by
  induction ops generalizing stream with
  | nil => rfl
  | cons op ops ih => rw [List.map_cons, List.foldl_cons, effect_behind, ih, List.foldl_cons]

theorem tracked_reopen (compress : Chunk → Compressed) (huncompressed : s.uncompressed = [])
    (hcompressed : s.compressed = []) (stray : List UInt8) :
    Tracked compress False (reopen s stray) [] (reopen s stray) := by
  refine ⟨rfl, rfl, fun h => absurd rfl h, [], [], rfl, ?_, by simp⟩
  exact ⟨by simp [transit, leftProducer, reopen, Worker.items, huncompressed], fun h => h.elim,
    by simp [reopen, Worker.items, hcompressed], (List.append_nil _).symm,
    (List.append_nil _).symm, by simp [reopen, Worker.items], fun _ => ⟨rfl, hcompressed⟩,
    fun h => h.elim⟩

/-- The second use, with every queue empty and no chunk kept back, brought to its end. -/
theorem second_use_length (hunpack : ∀ chunk, unpack (compress chunk) = chunk.bytes)
    {stray : List UInt8} {ops : List Op} {labels : List Label} {final : Use}
    (hheld : u.state.writer.held = []) (huncompressed : u.state.uncompressed = [])
    (hcompressed : u.state.compressed = [])
    (hstray : stray.length = u.state.writer.chunk.bytes.length)
    (hrun : exec (useStep compress) (secondUse u stray ops) labels = some final)
    (hend : final.program = []) :
    ((final.state.file.map unpack).flatten).length = stray.length + (streamOf ops).length := by
  have hphase := (shape_run (u := secondUse u stray ops) ⟨_, rfl⟩ hrun).finished hend
  have hexec := use_run hrun
  have hends : Ends final.state :=
    exec_invariant_of_step (fun _ _ _ => ends_step)
      ⟨by simp [secondUse, reopen], by simp [secondUse, reopen]⟩ hexec
  -- the bytes in the file are those of the chunks that the producer has closed
  have htracked := exec_trace_invariant
    (fun _ _ _ _ h _ => step_tracked h fun h => h.elim)
    (tracked_reopen compress huncompressed hcompressed stray) (along_true _ _ labels) hexec
  obtain ⟨hserializer, hempty, hempty'⟩ := hends.finished hphase
  obtain ⟨hheld', closed, packed, hproduce, hperm, -, hfile, -⟩ :=
    htracked.finished hphase (hends.joined (Or.inr hphase)) hempty hserializer hempty'
  have hbytes : (payload packed).length =
      (payload (closed ++ [final.state.writer.chunk])).length := by
    rw [← payload_filter packed, ← payload_filter (closed ++ _), payload_length, payload_length]
    exact (hperm.map _).sum_eq
  have hcontents : ((final.state.file.map unpack).flatten) = payload packed := by
    rw [hfile, List.map_map, payload]
    simp [Function.comp_def, hunpack]
  -- and these are, behind the first use, the stray bytes and what has been written
  let done : List UInt8 := List.replicate u.state.writer.chunk.start 0
  have hfront : (done ++ stray).length = u.state.writer.uncompressedBytes := by
    simp [done, hstray, Writer.uncompressedBytes, Chunk.stop]
  have hpending : (reopen u.state stray).writer.pending = stray := by
    simp [reopen, Writer.pending, hheld]
  have hstart : Streamed done (reopen u.state stray).writer [] (secondUse u stray ops) := by
    refine ⟨[], rfl, ⟨⟨rfl, ?_⟩, fun _ => hheld⟩, by simp [secondUse, payload, opsOf]⟩
    simp [secondUse, reopen, hheld, Linked, payload, done]
  obtain ⟨closed', hproduce', -, hstream⟩ := exec_trace_invariant
    (fun _ _ _ _ h _ => streamed_step h) hstart (along_true _ _ labels) hrun
  simp only [List.nil_append] at hproduce hproduce' hstream
  obtain ⟨-, rfl⟩ : final.state.writer = final.state.writer ∧ closed = closed' := by
    simpa using hproduce.symm.trans hproduce'
  have hops : opsOf labels = ops.map (behind (done ++ stray).length) := by
    rw [use_ops_of_end hend hrun, secondUse, opsOf_program, hfront]
  have hlast : final.state.writer.pending = final.state.writer.chunk.bytes := by
    simp [Writer.pending, hheld']
  have hsecond := foldl_effect_behind (done ++ stray) [] ops
  rw [List.append_nil] at hsecond
  rw [hops, hpending, hsecond, hlast] at hstream
  have hlength := congrArg List.length hstream
  rw [hcontents, hbytes, payload_append, streamOf]
  simp only [List.length_append, payload, List.map_cons, List.map_nil, List.flatten_cons,
    List.flatten_nil, List.length_nil] at hlength ⊢
  omega

/-- **With a worker in use** the second use need not come to its end: both flags are set, so
that the worker may leave before anything has been queued, and what `finalize` queues stays
there. -/
theorem worker_leaves_early {chunkSize : Nat} {multithreadedCompress multithreadedWrite : Bool}
    (hworker : multithreadedCompress = true ∨ multithreadedWrite = true)
    {first : List Op} {labels : List Label}
    (hrun : exec (useStep compress)
      ⟨State.init chunkSize multithreadedCompress multithreadedWrite, program first⟩
      labels = some u) (hend : u.program = []) (stray : List UInt8) (second : List Op) :
    ∃ leave left, useStep compress (secondUse u stray second) leave = some left ∧
      ∀ more final, exec (useStep compress) left more = some final → final.program ≠ [] := by
  obtain ⟨hcompress, hwrite, -, huncompressed, hcompressed, hfeeding, hcompressing, -⟩ :=
    first_use_spec hrun hend
  -- the steps of the producer in front of the last join
  let front : List Label := (second.map (behind u.state.writer.uncompressedBytes)).map Label.op ++
    [.finalize, .feedDone, .joinCompressor]
  have hprogram : (secondUse u stray second).program = front ++ [.joinSerializer] := by
    simp [secondUse, program, front]
  have hpending : Label.finalize ∈ front := by simp [front]
  cases hmode : multithreadedCompress with
  | true =>
      refine ⟨.compressorExit, ⟨{ reopen u.state stray with compressor := .exited },
        (secondUse u stray second).program⟩, ?_, fun more final hmore => ?_⟩
      · simp [useStep, isProducer, step, compressorExit, secondUse, reopen, huncompressed,
          hfeeding]
      · refine never_ends (u := ⟨{ reopen u.state stray with compressor := .exited }, _⟩)
          (fun s => s.multithreadedCompress = true ∧ s.compressor = .exited)
          (fun s => s.uncompressed ≠ []) (fun s label next hs hstep => ?_) (fun s hfull => ?_)
          front ⟨hcompress.trans hmode, rfl⟩ hprogram (Or.inl hpending) hmore
        · obtain ⟨hgone, hqueued⟩ := compressor_gone hs.1 hs.2 hstep
          exact ⟨⟨(step_modes hstep).1.trans hs.1, hgone⟩, hqueued⟩
        · simp [step, hfull]
  | false =>
      have hwriting : multithreadedWrite = true := hworker.resolve_left (by simp [hmode])
      refine ⟨.serializerExit, ⟨{ reopen u.state stray with serializer := .exited },
        (secondUse u stray second).program⟩, ?_, fun more final hmore => ?_⟩
      · simp [useStep, isProducer, step, serializerExit, secondUse, reopen, hcompressed,
          hcompressing]
      · refine never_ends (u := ⟨{ reopen u.state stray with serializer := .exited }, _⟩)
          (fun s => s.multithreadedCompress = false ∧
            s.multithreadedWrite = true ∧ s.serializer = .exited)
          (fun s => s.compressed ≠ []) (fun s label next hs hstep => ?_) (fun s hfull => ?_)
          front ⟨hcompress.trans hmode, hwrite.trans hwriting, rfl⟩ hprogram
          (Or.inl hpending) hmore
        · obtain ⟨hgone, hqueued⟩ := serializer_gone hs.1 hs.2.1 hs.2.2 hstep
          obtain ⟨hcompressMode, hwriteMode⟩ := step_modes hstep
          exact ⟨⟨hcompressMode.trans hs.1, hwriteMode.trans hs.2.1, hgone⟩, hqueued⟩
        · simp [step, hfull]

theorem readFile_eq_some {file : List Compressed} {bytes : List UInt8}
    (hread : readFile unpack file = some bytes) :
    (file.map unpack).flatten = bytes ∧ bytes ≠ [] := by
  simp only [readFile] at hread
  split at hread <;> cases hread
  case _ hbytes => exact ⟨rfl, hbytes⟩

/-- **Every second file is wrong.**  Behind a first use that is delivered, no schedule brings
the second one to its end with a file that is read back as what was written. -/
theorem second_file_differs (hunpack : ∀ chunk, unpack (compress chunk) = chunk.bytes)
    {chunkSize : Nat} {multithreadedCompress multithreadedWrite : Bool}
    {first second : List Op} {labels more : List Label} {stray : List UInt8} {final : Use}
    (hrun : exec (useStep compress)
      ⟨State.init chunkSize multithreadedCompress multithreadedWrite, program first⟩
      labels = some u) (hend : u.program = [])
    (hread : readFile unpack u.state.file = some (streamOf first))
    (hstray : stray.length = u.state.writer.chunk.bytes.length)
    (hmore : exec (useStep compress) (secondUse u stray second) more = some final)
    (hend' : final.program = []) :
    readFile unpack final.state.file ≠ some (streamOf second) := by
  intro hdelivered
  obtain ⟨-, -, hheld, huncompressed, hcompressed, -, -, closed, hproduce⟩ :=
    first_use_spec hrun hend
  have hchunk := chunk_not_empty hproduce (readFile_eq_some hread).2
  have hlength := second_use_length hunpack hheld huncompressed hcompressed hstray hmore hend'
  rw [(readFile_eq_some hdelivered).1, hstray] at hlength
  exact hchunk (List.length_eq_zero_iff.mp (by omega))

end

/-- **No writer can be used twice.**  Take any two sequences of operations, any chunk size and
any setting of the modes.  If the first use is delivered, it has written bytes, so that the
second one starts behind as many bytes of fresh memory as the last chunk of the first has, and
these come to the second file. -/
theorem never_reusable (compress : Chunk → Compressed) (unpack : Compressed → List UInt8)
    (hunpack : ∀ chunk, unpack (compress chunk) = chunk.bytes) (chunkSize : Nat)
    (multithreadedCompress multithreadedWrite : Bool) (first second : List Op) :
    ¬Reusable compress unpack chunkSize multithreadedCompress multithreadedWrite first
      second := by
  rintro ⟨hfirst, hsecond⟩
  obtain ⟨⟨labels, u, hrun, hend⟩, -⟩ := hfirst [] _ rfl
  -- any schedule that ends the second use will do
  have hdelivers := hsecond labels u hrun hend u.state.writer.chunk.bytes rfl
  obtain ⟨⟨more, final, hmore, hend'⟩, -⟩ := hdelivers [] _ rfl
  exact second_file_differs hunpack hrun hend ((hfirst labels u hrun).2 hend) rfl hmore hend'
    ((hdelivers more final hmore).2 hend')

/-- Two bytes and a delayed one, with the producer on its own. -/
theorem never_reusable_synchronous :
    ¬Reusable plain Compressed.body 4 false false [.block [1, 2]]
      [.later [0], .poke 0 [3], .thaw] :=
  never_reusable plain Compressed.body (fun _ => rfl) 4 false false _ _

/-- One block and `finalize`, with the workers in turn. -/
def oneBlock (bytes : List UInt8) : List Label :=
  [.op (.block bytes), .finalize, .compressorTake, .compressorPut, .feedDone, .compressorExit,
    .joinCompressor, .serializerTake, .serializerPut, .serializerExit, .joinSerializer]

/-- One byte and then one byte, with the workers that `set` launches: whatever stands in fresh
memory comes to the second file. -/
theorem second_use_not_delivered :
    ¬Reusable plain Compressed.body 4 true true [.block [1]] [.block [2]] := by
  rintro ⟨-, hsecond⟩
  have hread := (hsecond (oneBlock [1]) _ rfl rfl [7] rfl (oneBlock [2]) _ rfl).2 rfl
  exact absurd hread (by decide)

end Reuse
end Lavatube
