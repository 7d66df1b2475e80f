import Lavatube.Lib.LittleEndian
import Lavatube.Lib.Overwrite
import Lavatube.Patch

/-!
# The producer side of `file_writer`

Bytes are collected in a chunk.  A block that does not fit closes the chunk
(`make_space`); closed chunks are handed to compression at once, or kept back
while the writer is frozen, so that pointers into them stay valid, and handed
over together by `thaw`.

Where a chunk goes when it is handed over depends on the threading mode and is
the subject of `Pipeline`; here an operation only reports what it hands over.

A pointer that `write_value_later` returned is the stream position it points
to.  A store through it succeeds while the position lies in the current chunk
or in a chunk that is kept back; otherwise the memory may have been freed, and
the model refuses the store.

* `Op.run_spec` — the chunks handed over, the chunks kept back and the current
  chunk are together always the stream that the operations describe.
-/

namespace Lavatube
namespace FileWriter

open Overwrite

/-- A chunk and the stream position of its first byte
(`current_chunk_uncompressed_offset`). -/
structure Chunk where
  start : Nat
  bytes : List UInt8
deriving DecidableEq, Repr

/-- The stream position behind a chunk. -/
def Chunk.stop (chunk : Chunk) : Nat := chunk.start + chunk.bytes.length

/-- The members of `file_writer` that only the producer touches.  `uidx` is the
length of the current chunk's bytes and `capacity` the size of its buffer;
`held` has the newest chunk in front. -/
structure Writer where
  chunkSize : Nat
  chunk : Chunk := ⟨0, []⟩
  capacity : Nat
  holding : Bool := false
  held : List Chunk := []
deriving DecidableEq, Repr

/-- The constructor. -/
def Writer.new (chunkSize : Nat) : Writer :=
  { chunkSize := chunkSize, capacity := chunkSize }

/-- `uncompressed_bytes`. -/
def Writer.uncompressedBytes (w : Writer) : Nat := w.chunk.stop

/-- What an operation hands to compression: nothing, the chunk that
`make_space` closed, or the chunks that `thaw` splices in (newest in front). -/
inductive Handed where
  | nothing
  | closed (chunk : Chunk)
  | spliced (chunks : List Chunk)
deriving DecidableEq, Repr

/-- `make_space`. -/
def makeSpace (w : Writer) (size : Nat) : Writer × Handed :=
  let fresh : Writer := { w with
    chunk := ⟨w.chunk.stop, []⟩
    capacity := if size > w.chunkSize then size else w.chunkSize }
  if w.holding then
    ({ fresh with held := w.chunk :: w.held }, .nothing)
  else
    (fresh, .closed w.chunk)

/-- `check_space`. -/
def checkSpace (w : Writer) (size : Nat) : Writer × Handed :=
  if size > w.capacity - w.chunk.bytes.length then makeSpace w size
  else (w, .nothing)

/-- Copy bytes to the end of the current chunk. -/
def Writer.put (w : Writer) (bytes : List UInt8) : Writer :=
  { w with chunk := { w.chunk with bytes := w.chunk.bytes ++ bytes } }

/-- The common body of `write_value`, `write_array` and the payload writes:
bytes that are kept in one chunk. -/
def writeBlock (w : Writer) (bytes : List UInt8) : Writer × Handed :=
  let checked := checkSpace w bytes.length
  (checked.1.put bytes, checked.2)

/-- `freeze`. -/
def freeze (w : Writer) : Writer := { w with holding := true }

/-- `write_value_later`; the pointer it returns is `laterPosition`. -/
def writeValueLater (w : Writer) (bytes : List UInt8) : Writer × Handed :=
  let checked := checkSpace w bytes.length
  ((freeze checked.1).put bytes, checked.2)

/-- The position of the value that `write_value_later` is about to write. -/
def laterPosition (w : Writer) : Nat := w.uncompressedBytes

/-- `thaw`. -/
def thaw (w : Writer) : Writer × Handed :=
  if w.holding then ({ w with holding := false, held := [] }, .spliced w.held)
  else (w, .nothing)

/-- The range `[pos, pos + count)` lies in the chunk. -/
def Chunk.Contains (chunk : Chunk) (pos count : Nat) : Prop :=
  chunk.start ≤ pos ∧ pos + count ≤ chunk.stop

instance (chunk : Chunk) (pos count : Nat) : Decidable (chunk.Contains pos count) :=
  inferInstanceAs (Decidable (_ ∧ _))

/-- A store through a pointer into one of the chunks. -/
def pokeChunks (pos : Nat) (bytes : List UInt8) : List Chunk → Option (List Chunk)
  | [] => none
  | chunk :: rest =>
      if chunk.Contains pos bytes.length then
        some ({ chunk with
          bytes := overwrite chunk.bytes (pos - chunk.start) bytes } :: rest)
      else
        match pokeChunks pos bytes rest with
        | none => none
        | some rest => some (chunk :: rest)

/-- A store through a pointer that `write_value_later` returned. -/
def poke (w : Writer) (pos : Nat) (bytes : List UInt8) : Option Writer :=
  match pokeChunks pos bytes (w.chunk :: w.held) with
  | some (chunk :: held) => some { w with chunk := chunk, held := held }
  | _ => none

/-- The operations of the producer.  The length of a block is an `unsigned`. -/
inductive Op where
  | block (bytes : List UInt8)
  | later (bytes : List UInt8)
  | poke (pos : Nat) (bytes : List UInt8)
  | freeze
  | thaw
deriving DecidableEq, Repr

/-- One operation: the writer afterwards and what was handed over. -/
def Op.run (w : Writer) : Op → Option (Writer × Handed)
  | .block bytes => if bytes.length < 2 ^ 32 then some (writeBlock w bytes) else none
  | .later bytes =>
      if bytes.length < 2 ^ 32 then some (writeValueLater w bytes) else none
  | .poke pos bytes =>
      match FileWriter.poke w pos bytes with
      | none => none
      | some w => some (w, .nothing)
  | .freeze => some (FileWriter.freeze w, .nothing)
  | .thaw => some (FileWriter.thaw w)

/-! ## The write functions as operations -/

/-- `write_value` for a value of `width` bytes. -/
def writeValue (width value : Nat) : List Op :=
  [.block (LittleEndian.encode width value)]

/-- `write_array` of bytes. -/
def writeArray (bytes : List UInt8) : List Op :=
  if bytes.length > 0 then [.block bytes] else []

/-- `write_memory_span`, behind its assertions. -/
def writeMemorySpan (offset : Nat) (payload : List UInt8) : List Op :=
  writeValue 4 offset ++ writeValue 4 payload.length ++ [.block payload] ++
    writeValue 4 0 ++ writeValue 4 0

/-- The operations of `write_patch`: each span is one block. -/
def writePatchOps (orig chng : ByteMemory.Memory) (offset size : Nat) : List Op :=
  (Patch.writePatch orig chng offset size).pieces.map .block

/-! ## The stream behind the chunks -/

/-- What an operation does to the stream of bytes. -/
def Op.effect (stream : List UInt8) : Op → List UInt8
  | .block bytes => stream ++ bytes
  | .later bytes => stream ++ bytes
  | .poke pos bytes => overwrite stream pos bytes
  | .freeze => stream
  | .thaw => stream

/-- The bytes of a list of chunks with the newest in front. -/
def content : List Chunk → List UInt8
  | [] => []
  | chunk :: rest => content rest ++ chunk.bytes

@[simp] theorem content_nil : content [] = [] := rfl

@[simp] theorem content_cons (chunk : Chunk) (rest : List Chunk) :
    content (chunk :: rest) = content rest ++ chunk.bytes := rfl

@[simp] theorem content_append (front back : List Chunk) :
    content (front ++ back) = content back ++ content front := by
  induction front with
  | nil => simp
  | cons chunk front ih => simp [ih]

/-- The chunks, newest in front, lie end to end in the stream behind `base` and
reach to `stop`. -/
def Linked (base : Nat) : List Chunk → Nat → Prop
  | [], stop => base = stop
  | chunk :: rest, stop => chunk.stop = stop ∧ Linked base rest chunk.start

theorem Linked.length {base stop : Nat} {chunks : List Chunk}
    (hlinked : Linked base chunks stop) :
    base + (content chunks).length = stop := by
  induction chunks generalizing stop with
  | nil => simpa [Linked] using hlinked
  | cons chunk rest ih =>
      obtain ⟨hstop, hrest⟩ := hlinked
      have := ih hrest
      unfold Chunk.stop at hstop
      simp only [content_cons, List.length_append]
      omega

/-- A store through a pointer keeps the length of every chunk. -/
theorem pokeChunks_lengths {pos : Nat} {bytes : List UInt8} {chunks chunks' : List Chunk}
    (hpoke : pokeChunks pos bytes chunks = some chunks') :
    chunks'.map (fun chunk => chunk.bytes.length) =
      chunks.map (fun chunk => chunk.bytes.length) := by
  induction chunks generalizing chunks' with
  | nil => cases hpoke
  | cons chunk rest ih =>
      unfold pokeChunks at hpoke
      split at hpoke
      · case _ hin =>
          cases hpoke
          unfold Chunk.Contains Chunk.stop at hin
          have hkeep : (overwrite chunk.bytes (pos - chunk.start) bytes).length =
              chunk.bytes.length := overwrite_length (by omega)
          simp [hkeep]
      · split at hpoke
        · cases hpoke
        · case _ rest' hpoke' =>
            cases hpoke
            simp [ih hpoke']

/-- A store through a pointer overwrites the bytes at its position. -/
theorem pokeChunks_spec {pos base stop : Nat} {bytes : List UInt8}
    {chunks chunks' : List Chunk} (hlinked : Linked base chunks stop)
    (hpoke : pokeChunks pos bytes chunks = some chunks') :
    Linked base chunks' stop ∧ base ≤ pos ∧ pos + bytes.length ≤ stop ∧
      content chunks' = overwrite (content chunks) (pos - base) bytes := by
  induction chunks generalizing chunks' stop with
  | nil => cases hpoke
  | cons chunk rest ih =>
      obtain ⟨hstop, hrest⟩ := hlinked
      have hlength := hrest.length
      unfold pokeChunks at hpoke
      split at hpoke
      -- the pointer goes into this chunk
      · case _ hin =>
          cases hpoke
          unfold Chunk.Contains at hin
          unfold Chunk.stop at hin hstop
          have hkeep : (overwrite chunk.bytes (pos - chunk.start) bytes).length =
              chunk.bytes.length := overwrite_length (by omega)
          refine ⟨⟨?_, hrest⟩, by omega, by omega, ?_⟩
          · unfold Chunk.stop
            simp only [hkeep]
            exact hstop
          · simp only [content_cons]
            rw [overwrite_append_right (by omega)]
            congr 2
            omega
      · split at hpoke
        · cases hpoke
        · case _ rest' hpoke' =>
            cases hpoke
            -- or into a later one, and this chunk is passed over
            obtain ⟨hlinked', hbase, hend, hcontent⟩ := ih hrest hpoke'
            have hstart : chunk.start ≤ stop := by
              unfold Chunk.stop at hstop
              omega
            refine ⟨⟨hstop, hlinked'⟩, hbase, by omega, ?_⟩
            simp only [content_cons, hcontent]
            rw [overwrite_append_left (by omega)]

/-- The invariant of the producer: the kept chunks and the current one lie end
to end behind `base`, the current chunk fits its buffer, and chunks are kept
back only while the writer is frozen. -/
structure Writer.WF (base : Nat) (w : Writer) : Prop where
  linked : Linked base (w.chunk :: w.held) w.uncompressedBytes
  fits : w.chunk.bytes.length ≤ w.capacity
  held_nil : w.holding = false → w.held = []

/-- The bytes that have not been handed over. -/
def Writer.pending (w : Writer) : List UInt8 := content (w.chunk :: w.held)

/-- The chunks an operation hands over, newest in front. -/
def Handed.chunks : Handed → List Chunk
  | .nothing => []
  | .closed chunk => [chunk]
  | .spliced chunks => chunks

theorem Writer.wf_new (chunkSize : Nat) : (Writer.new chunkSize).WF 0 :=
  ⟨⟨rfl, rfl⟩, by simp [Writer.new], fun _ => rfl⟩

/-- What an operation leaves pending and hands over, when it extends the stream
from `w.pending` to `stream`. -/
structure Conserves (base : Nat) (stream : List UInt8) (w' : Writer)
    (handed : Handed) : Prop where
  wf : w'.WF (base + (content handed.chunks).length)
  bytes : content handed.chunks ++ w'.pending = stream

/-- **Space for a block.**  Nothing is lost and the block fits the chunk. -/
theorem checkSpace_spec {base : Nat} {w : Writer} (hwf : w.WF base) (size : Nat) :
    Conserves base w.pending (checkSpace w size).1 (checkSpace w size).2 ∧
      (checkSpace w size).1.chunk.bytes.length + size ≤ (checkSpace w size).1.capacity ∧
      (checkSpace w size).1.holding = w.holding ∧
      (checkSpace w size).1.uncompressedBytes = w.uncompressedBytes := by
  have hfits := hwf.fits
  unfold checkSpace
  split
  · unfold makeSpace
    simp only
    have hroom : size ≤ if size > w.chunkSize then size else w.chunkSize := by
      split <;> omega
    cases hholding : w.holding with
    -- the full chunk is kept back
    | true =>
        rw [if_pos rfl]
        refine ⟨⟨⟨⟨rfl, ?_⟩, by simp, by simp⟩, ?_⟩, by simpa using hroom,
          by simp, by simp [Writer.uncompressedBytes, Chunk.stop]⟩
        · exact hwf.linked
        · simp [Handed.chunks, Writer.pending]
    -- the full chunk is handed over, so the pending bytes begin behind it
    | false =>
        rw [if_neg (by simp)]
        have hheld := hwf.held_nil hholding
        refine ⟨⟨⟨⟨rfl, ?_⟩, by simp, by simp [hheld]⟩, ?_⟩, by simpa using hroom,
          by simp, by simp [Writer.uncompressedBytes, Chunk.stop]⟩
        · have hlength := hwf.linked.length
          simp only [hheld, content_cons, content_nil, List.nil_append] at hlength
          simp only [hheld, Handed.chunks, content_cons, content_nil, List.nil_append]
          exact hlength
        · simp [Handed.chunks, Writer.pending, hheld]
  · refine ⟨⟨by simpa [Handed.chunks] using hwf, by simp [Handed.chunks]⟩, ?_, rfl, rfl⟩
    simp only
    omega

theorem put_pending (w : Writer) (bytes : List UInt8) :
    (w.put bytes).pending = w.pending ++ bytes := by
  simp [Writer.put, Writer.pending]

theorem put_wf {base : Nat} {w : Writer} (hwf : w.WF base) {bytes : List UInt8}
    (hroom : w.chunk.bytes.length + bytes.length ≤ w.capacity) :
    (w.put bytes).WF base :=
  ⟨⟨rfl, hwf.linked.2⟩, by simpa [Writer.put] using hroom, hwf.held_nil⟩

theorem freeze_wf {base : Nat} {w : Writer} (hwf : w.WF base) : (freeze w).WF base :=
  ⟨hwf.linked, hwf.fits, by simp [freeze]⟩

theorem writeBlock_spec {base : Nat} {w : Writer} (hwf : w.WF base)
    (bytes : List UInt8) :
    Conserves base (w.pending ++ bytes) (writeBlock w bytes).1 (writeBlock w bytes).2 := by
  obtain ⟨hspace, hroom, -⟩ := checkSpace_spec hwf bytes.length
  refine ⟨put_wf hspace.wf hroom, ?_⟩
  simp only [writeBlock]
  rw [put_pending, ← List.append_assoc, hspace.bytes]

theorem writeValueLater_spec {base : Nat} {w : Writer} (hwf : w.WF base)
    (bytes : List UInt8) :
    Conserves base (w.pending ++ bytes) (writeValueLater w bytes).1
      (writeValueLater w bytes).2 := by
  obtain ⟨hspace, hroom, -⟩ := checkSpace_spec hwf bytes.length
  refine ⟨put_wf (freeze_wf hspace.wf) hroom, ?_⟩
  simp only [writeValueLater]
  have hpending : (freeze (checkSpace w bytes.length).1).pending =
      (checkSpace w bytes.length).1.pending := rfl
  rw [put_pending, hpending, ← List.append_assoc, hspace.bytes]

theorem thaw_spec {base : Nat} {w : Writer} (hwf : w.WF base) :
    Conserves base w.pending (thaw w).1 (thaw w).2 := by
  unfold thaw
  split
  · refine ⟨⟨⟨rfl, ?_⟩, hwf.fits, fun _ => rfl⟩, ?_⟩
    · exact hwf.linked.2.length
    · simp [Handed.chunks, Writer.pending]
  · exact ⟨by simpa [Handed.chunks] using hwf, by simp [Handed.chunks]⟩

theorem poke_spec {base pos : Nat} {w w' : Writer} {bytes : List UInt8}
    (hwf : w.WF base) (hpoke : poke w pos bytes = some w') :
    w'.WF base ∧ base ≤ pos ∧ w'.pending = overwrite w.pending (pos - base) bytes ∧
      w'.holding = w.holding ∧ w'.uncompressedBytes = w.uncompressedBytes := by
  unfold poke at hpoke
  split at hpoke
  · case _ chunk held hchunks =>
      cases hpoke
      obtain ⟨hlinked, hbase, -, hcontent⟩ := pokeChunks_spec hwf.linked hchunks
      have hlengths := pokeChunks_lengths hchunks
      simp only [List.map_cons, List.cons.injEq] at hlengths
      have hstop : chunk.stop = w.uncompressedBytes := hlinked.1
      refine ⟨⟨⟨rfl, hlinked.2⟩, ?_, ?_⟩, hbase, hcontent, rfl, hstop⟩
      · simpa [hlengths.1] using hwf.fits
      · intro hholding
        have hheld := hwf.held_nil hholding
        simpa [hheld] using hlengths.2
  · cases hpoke

/-- **One operation of the producer.**  Behind any bytes handed over earlier,
the chunks handed over now and the bytes still pending are the stream with the
operation's effect. -/
theorem Op.run_spec {w w' : Writer} {op : Op} {handed : Handed} {done : List UInt8}
    (hwf : w.WF done.length) (hrun : op.run w = some (w', handed)) :
    w'.WF (done ++ content handed.chunks).length ∧
      done ++ content handed.chunks ++ w'.pending =
        op.effect (done ++ w.pending) := by
  -- all but a store through a pointer only append to the stream
  have hconserves : ∀ stream, Conserves done.length stream w' handed →
      w'.WF (done ++ content handed.chunks).length ∧
        done ++ content handed.chunks ++ w'.pending = done ++ stream := by
    intro stream hspec
    refine ⟨by simpa using hspec.wf, ?_⟩
    rw [List.append_assoc, hspec.bytes]
  cases op with
  | block bytes =>
      simp only [Op.run] at hrun
      split at hrun
      · cases hrun
        simpa [Op.effect] using hconserves _ (writeBlock_spec hwf bytes)
      · cases hrun
  | later bytes =>
      simp only [Op.run] at hrun
      split at hrun
      · cases hrun
        simpa [Op.effect] using hconserves _ (writeValueLater_spec hwf bytes)
      · cases hrun
  | poke pos bytes =>
      simp only [Op.run] at hrun
      split at hrun
      · cases hrun
      · case _ hpoke =>
          cases hrun
          obtain ⟨hwf', hbase, hpending, -⟩ := poke_spec hwf hpoke
          refine ⟨by simpa [Handed.chunks] using hwf', ?_⟩
          simp only [Handed.chunks, content_nil, List.append_nil, Op.effect]
          rw [overwrite_append_right hbase, hpending]
  | freeze =>
      cases hrun
      exact hconserves _ ⟨by simpa [Handed.chunks] using freeze_wf hwf,
        by simp [Handed.chunks, Writer.pending, FileWriter.freeze]⟩
  | thaw =>
      have hthaw : FileWriter.thaw w = (w', handed) := Option.some.inj hrun
      have hspec := thaw_spec hwf
      rw [hthaw] at hspec
      exact hconserves _ hspec

/-! ## Pointers into the chunks -/

/-- The `count` bytes at `pos` lie in one chunk that has not been handed over. -/
def Writer.Pins (w : Writer) (pos count : Nat) : Prop :=
  ∃ chunk ∈ w.chunk :: w.held, chunk.Contains pos count

/-- While the writer is frozen, making space lets go of no byte. -/
theorem checkSpace_pins {w : Writer} (hholding : w.holding = true) (size : Nat)
    {pos count : Nat} (hpins : w.Pins pos count) : (checkSpace w size).1.Pins pos count := by
  obtain ⟨chunk, hchunk, hin⟩ := hpins
  unfold checkSpace
  split
  · unfold makeSpace
    rw [hholding]
    exact ⟨chunk, List.mem_cons_of_mem _ hchunk, hin⟩
  · exact ⟨chunk, hchunk, hin⟩

theorem put_pins {w : Writer} (bytes : List UInt8) {pos count : Nat}
    (hpins : w.Pins pos count) : (w.put bytes).Pins pos count := by
  obtain ⟨chunk, hchunk, hstart, hstop⟩ := hpins
  rcases List.mem_cons.mp hchunk with rfl | hheld
  · refine ⟨_, List.mem_cons_self .., hstart, ?_⟩
    unfold Chunk.stop at hstop ⊢
    simp only [Writer.put, List.length_append]
    omega
  · exact ⟨chunk, List.mem_cons_of_mem _ hheld, hstart, hstop⟩

/-- The bytes that are put are pinned at the position they got. -/
theorem put_pins_new (w : Writer) (bytes : List UInt8) :
    (w.put bytes).Pins w.uncompressedBytes bytes.length := by
  refine ⟨_, List.mem_cons_self .., ?_, ?_⟩
  · exact Nat.le_add_right ..
  · simp only [Writer.put, Writer.uncompressedBytes, Chunk.stop, List.length_append]
    omega

/-- A store through a pointer moves no chunk. -/
theorem pokeChunks_contains {pos : Nat} {bytes : List UInt8} {chunks chunks' : List Chunk}
    (hpoke : pokeChunks pos bytes chunks = some chunks') {other count : Nat}
    (hin : ∃ chunk ∈ chunks, chunk.Contains other count) :
    ∃ chunk ∈ chunks', chunk.Contains other count := by
  induction chunks generalizing chunks' with
  | nil => cases hpoke
  | cons first rest ih =>
      obtain ⟨chunk, hchunk, hcontains⟩ := hin
      unfold pokeChunks at hpoke
      split at hpoke
      · case _ hfirst =>
          cases hpoke
          rcases List.mem_cons.mp hchunk with rfl | hmem
          · refine ⟨_, List.mem_cons_self .., hcontains.1, ?_⟩
            have hstop := hcontains.2
            unfold Chunk.Contains at hfirst
            unfold Chunk.stop at hfirst hstop ⊢
            simp only
            rw [overwrite_length (by omega)]
            exact hstop
          · exact ⟨chunk, List.mem_cons_of_mem _ hmem, hcontains⟩
      · split at hpoke
        · cases hpoke
        · case _ rest' hrest =>
            cases hpoke
            rcases List.mem_cons.mp hchunk with rfl | hmem
            · exact ⟨chunk, List.mem_cons_self .., hcontains⟩
            · obtain ⟨kept, hkept, hkeptIn⟩ := ih hrest ⟨chunk, hmem, hcontains⟩
              exact ⟨kept, List.mem_cons_of_mem _ hkept, hkeptIn⟩

/-- A store to pinned bytes is not refused. -/
theorem pokeChunks_isSome {pos : Nat} {bytes : List UInt8} {chunks : List Chunk}
    (hin : ∃ chunk ∈ chunks, chunk.Contains pos bytes.length) :
    ∃ first rest, pokeChunks pos bytes chunks = some (first :: rest) := by
  induction chunks with
  | nil => simp at hin
  | cons first rest ih =>
      unfold pokeChunks
      by_cases hfirst : first.Contains pos bytes.length
      · exact ⟨_, rest, by rw [if_pos hfirst]⟩
      · obtain ⟨chunk, hchunk, hcontains⟩ := hin
        have hmem : chunk ∈ rest := by
          rcases List.mem_cons.mp hchunk with rfl | hmem
          · exact absurd hcontains hfirst
          · exact hmem
        obtain ⟨second, more, hrest⟩ := ih ⟨chunk, hmem, hcontains⟩
        exact ⟨first, second :: more, by rw [if_neg hfirst, hrest]⟩

theorem poke_isSome {w : Writer} {pos : Nat} {bytes : List UInt8}
    (hpins : w.Pins pos bytes.length) : ∃ w', poke w pos bytes = some w' := by
  obtain ⟨first, rest, hpoke⟩ := pokeChunks_isSome hpins
  exact ⟨_, by unfold poke; rw [hpoke]⟩

/-- **What freezing is for.**  While the writer is frozen, every operation but
`thaw` keeps it frozen and lets go of no byte. -/
theorem Op.run_pins {w w' : Writer} {op : Op} {handed : Handed}
    (hholding : w.holding = true) (hthaw : op ≠ .thaw)
    (hrun : op.run w = some (w', handed)) :
    w'.holding = true ∧ ∀ pos count, w.Pins pos count → w'.Pins pos count := by
  -- a new chunk does not end the freeze
  have hspace : ∀ size, (checkSpace w size).1.holding = true := by
    intro size
    unfold checkSpace makeSpace
    split
    · simp [hholding]
    · exact hholding
  cases op with
  | block bytes =>
      simp only [Op.run] at hrun
      split at hrun
      · cases hrun
        exact ⟨hspace bytes.length, fun pos count hpins =>
          put_pins bytes (checkSpace_pins hholding bytes.length hpins)⟩
      · cases hrun
  | later bytes =>
      simp only [Op.run] at hrun
      split at hrun
      · cases hrun
        exact ⟨rfl, fun pos count hpins =>
          put_pins bytes (checkSpace_pins hholding bytes.length hpins)⟩
      · cases hrun
  | poke pos bytes =>
      simp only [Op.run, FileWriter.poke] at hrun
      split at hrun
      · cases hrun
      · case _ hpoke =>
          cases hrun
          split at hpoke
          · case _ hchunks =>
              cases hpoke
              exact ⟨hholding, fun other count hpins => pokeChunks_contains hchunks hpins⟩
          · cases hpoke
  | freeze =>
      cases hrun
      exact ⟨rfl, fun pos count hpins => hpins⟩
  | thaw => exact absurd rfl hthaw

/-- A deferred value is pinned where its pointer points. -/
theorem later_pins {w w' : Writer} {bytes : List UInt8} {handed : Handed}
    (hrun : (Op.later bytes).run w = some (w', handed)) :
    w'.holding = true ∧ w'.Pins (laterPosition w) bytes.length := by
  simp only [Op.run] at hrun
  split at hrun
  · cases hrun
    refine ⟨rfl, ?_⟩
    have hposition : (freeze (checkSpace w bytes.length).1).uncompressedBytes =
        laterPosition w := by
      unfold checkSpace makeSpace
      simp only [freeze, laterPosition, Writer.uncompressedBytes]
      split
      · split <;> simp [Chunk.stop]
      · rfl
    exact hposition ▸ put_pins_new _ bytes
  · cases hrun

/-! ## The size of the chunks -/

/-- The bytes an operation adds to the stream. -/
def Op.size : Op → Nat
  | .block bytes | .later bytes => bytes.length
  | .poke _ _ | .freeze | .thaw => 0

/-- The buffers of a writer and the chunks it keeps back have at most `limit`
bytes. -/
structure Writer.Bounded (limit : Nat) (w : Writer) : Prop where
  chunkSize : w.chunkSize ≤ limit
  capacity : w.capacity ≤ limit
  fits : w.chunk.bytes.length ≤ w.capacity
  held : ∀ chunk ∈ w.held, chunk.bytes.length ≤ limit

theorem Writer.bounded_new {limit chunkSize : Nat} (hsize : chunkSize ≤ limit) :
    (Writer.new chunkSize).Bounded limit :=
  ⟨hsize, hsize, by simp [Writer.new], by simp [Writer.new]⟩

theorem checkSpace_bounded {limit : Nat} {w : Writer} (hbounded : w.Bounded limit)
    {size : Nat} (hsize : size ≤ limit) :
    (checkSpace w size).1.Bounded limit ∧
      (checkSpace w size).1.chunk.bytes.length + size ≤ (checkSpace w size).1.capacity ∧
      ∀ chunk ∈ (checkSpace w size).2.chunks, chunk.bytes.length ≤ limit := by
  obtain ⟨hchunkSize, hcapacity, hfits, hheld⟩ := hbounded
  have hfresh : (if size > w.chunkSize then size else w.chunkSize) ≤ limit := by
    split <;> omega
  have hroom : size ≤ if size > w.chunkSize then size else w.chunkSize := by
    split <;> omega
  have hcurrent : ∀ chunk ∈ w.chunk :: w.held, chunk.bytes.length ≤ limit := by
    intro chunk hchunk
    rcases List.mem_cons.mp hchunk with rfl | hmem
    · omega
    · exact hheld chunk hmem
  unfold checkSpace
  split
  · unfold makeSpace
    cases w.holding with
    | true =>
        exact ⟨⟨hchunkSize, hfresh, by simp, hcurrent⟩, by simpa using hroom,
          by simp [Handed.chunks]⟩
    | false =>
        refine ⟨⟨hchunkSize, hfresh, by simp, hheld⟩, by simpa using hroom, ?_⟩
        simpa [Handed.chunks] using hcurrent w.chunk (List.mem_cons_self ..)
  · refine ⟨⟨hchunkSize, hcapacity, hfits, hheld⟩, ?_, by simp [Handed.chunks]⟩
    simp only
    omega

theorem poke_bounded {limit pos : Nat} {w w' : Writer} {bytes : List UInt8}
    (hbounded : w.Bounded limit) (hpoke : poke w pos bytes = some w') :
    w'.Bounded limit := by
  unfold poke at hpoke
  split at hpoke
  · case _ chunk held hchunks =>
      cases hpoke
      have hlengths := pokeChunks_lengths hchunks
      simp only [List.map_cons, List.cons.injEq] at hlengths
      refine ⟨hbounded.chunkSize, hbounded.capacity, ?_, fun other hother => ?_⟩
      · simpa [hlengths.1] using hbounded.fits
      · have hmem : other.bytes.length ∈ held.map fun chunk => chunk.bytes.length :=
          List.mem_map_of_mem hother
        rw [hlengths.2] at hmem
        obtain ⟨kept, hkept, heq⟩ := List.mem_map.mp hmem
        rw [← heq]
        exact hbounded.held kept hkept
  · cases hpoke

/-- **The size of a chunk.**  Whatever is written, no chunk outgrows the chunk
size and the largest block.  With `limit` below `2 ^ 32` this says that the
index into the current chunk does not overflow. -/
theorem Op.run_bounded {limit : Nat} {w w' : Writer} {op : Op} {handed : Handed}
    (hbounded : w.Bounded limit) (hsize : op.size ≤ limit)
    (hrun : op.run w = some (w', handed)) :
    w'.Bounded limit ∧ ∀ chunk ∈ handed.chunks, chunk.bytes.length ≤ limit := by
  -- a block is put only where there is room for it
  have hput : ∀ (bytes : List UInt8) (middle : Writer), middle.Bounded limit →
      middle.chunk.bytes.length + bytes.length ≤ middle.capacity →
      (middle.put bytes).Bounded limit := by
    intro bytes middle hmiddle hroom
    exact ⟨hmiddle.chunkSize, hmiddle.capacity, by simpa [Writer.put] using hroom,
      hmiddle.held⟩
  cases op with
  | block bytes =>
      simp only [Op.run] at hrun
      split at hrun
      · cases hrun
        obtain ⟨hmiddle, hroom, hhanded⟩ := checkSpace_bounded hbounded hsize
        exact ⟨hput bytes _ hmiddle hroom, hhanded⟩
      · cases hrun
  | later bytes =>
      simp only [Op.run] at hrun
      split at hrun
      · cases hrun
        obtain ⟨hmiddle, hroom, hhanded⟩ := checkSpace_bounded hbounded hsize
        refine ⟨hput bytes _ ?_ hroom, hhanded⟩
        exact ⟨hmiddle.chunkSize, hmiddle.capacity, hmiddle.fits, hmiddle.held⟩
      · cases hrun
  | poke pos bytes =>
      simp only [Op.run] at hrun
      split at hrun
      · cases hrun
      · case _ hpoke =>
          cases hrun
          exact ⟨poke_bounded hbounded hpoke, by simp [Handed.chunks]⟩
  | freeze =>
      cases hrun
      exact ⟨⟨hbounded.chunkSize, hbounded.capacity, hbounded.fits, hbounded.held⟩,
        by simp [Handed.chunks]⟩
  | thaw =>
      simp only [Op.run, FileWriter.thaw] at hrun
      split at hrun
      · cases hrun
        exact ⟨⟨hbounded.chunkSize, hbounded.capacity, hbounded.fits, by simp⟩,
          hbounded.held⟩
      · cases hrun
        exact ⟨hbounded, by simp [Handed.chunks]⟩

end FileWriter
end Lavatube
