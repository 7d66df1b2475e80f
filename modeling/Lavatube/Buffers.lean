import Lavatube.Container

/-!
# The buffers of `file_writer`

`buffer` is a pointer to `malloc`-ed memory and a size, and `shrink` stores any size.  Here
a buffer also knows how much was allocated for it and which bytes at its front have been
initialised, and every operation of the writer that sets a size is followed through the
queues into the file.

* `Sound` — no buffer claims more than it owns, and what was written to the file for a
  chunk is a header and an initialised payload.
* `Fitting` — the steps after which that is still so.
* `sound_iff_along` — a run stays sound exactly as long as its steps are fitting: the
  uncompressed records, whose stored size counts the header already, are shrunk to more
  than they own, and `change_default_chunk_size` may enlarge a chunk that is in use.
-/

namespace Lavatube
namespace Buffers

open Container Pipeline Transition

/-- `buffer`.  `bytes` are the initialised bytes at its front. -/
structure Buffer where
  allocated : Nat
  size : Nat
  bytes : List UInt8 := []
deriving DecidableEq, Repr

/-- The constructor, which calls `malloc`. -/
def Buffer.new (size : Nat) : Buffer := ⟨size, size, []⟩

/-- `shrink`. -/
def Buffer.shrink (b : Buffer) (size : Nat) : Buffer := { b with size := size }

/-- `memcpy` to a position in the initialised bytes or right behind them. -/
def Buffer.store (b : Buffer) (pos : Nat) (bytes : List UInt8) : Buffer :=
  { b with bytes := b.bytes.take pos ++ bytes ++ b.bytes.drop (pos + bytes.length) }

/-- The bytes that the buffer claims; `none` is a byte that has not been initialised or does
not belong to it. -/
def Buffer.claimed (b : Buffer) : List (Option UInt8) :=
  (b.bytes.take b.size).map some ++ List.replicate (b.size - b.bytes.length) none

/-- The libraries, with the documented bounds on what they write, and the settings of a
writer. -/
structure Config where
  codecs : Codecs
  /-- `density_compress_safe_size` -/
  densityCompressSafeSize : Nat → Nat
  /-- `LZ4_COMPRESSBOUND` -/
  lz4CompressBound : Nat → Nat
  type : CompressionType
  multithreadedCompress : Bool := true
  multithreadedWrite : Bool := true

/-- The libraries keep to their documented bounds. -/
structure Config.Bounded (config : Config) : Prop where
  density : ∀ input, (config.codecs.densityCompress input).1.length ≤
    config.densityCompressSafeSize input.length
  lz4 : ∀ input, (config.codecs.lz4Compress input).length ≤
    config.lz4CompressBound input.length

/-- How much `compress_chunk` allocates for a chunk. -/
def allocation (config : Config) (size : Nat) : Nat :=
  match config.type with
  | .density => config.densityCompressSafeSize size + 16
  | .lz4 => config.lz4CompressBound size + 16
  | .uncompressed => size + 16

/-- The record of a chunk, as far as it is initialised. -/
def record (config : Config) (input : List UInt8) : Compressed :=
  Container.compressChunk config.codecs config.type [] input

/-- `compress_chunk`; `none` is an `ABORT`. -/
def compressChunk (config : Config) (uncompressed : Buffer) : Option Buffer :=
  let packed := record config (uncompressed.bytes.take uncompressed.size)
  if config.type = .lz4 ∧ packed.wasWritten = 0 then
    none
  else
    let compressed := (Buffer.new (allocation config uncompressed.size)).store 0
      (recordBytes packed)
    some (compressed.shrink (packed.wasWritten + 16))

/-- The members of `file_writer` that hold buffers.  The lists have the newest buffer in
front; `file` has what each `write_chunk` behind the file header has written. -/
structure State where
  /-- `uncompressed_chunk_size` -/
  chunkSize : Nat
  chunk : Buffer
  uidx : Nat := 0
  holding : Bool := false
  held : List Buffer := []
  uncompressed : List Buffer := []
  compressed : List Buffer := []
  file : List (List (Option UInt8)) := []
  finalized : Bool := false
deriving DecidableEq, Repr

/-- A writer on which `set` has been called. -/
def State.init (chunkSize : Nat) : State :=
  { chunkSize := chunkSize, chunk := Buffer.new chunkSize }

/-- All buffers that have not been released. -/
def State.buffers (s : State) : List Buffer :=
  s.chunk :: (s.held ++ s.uncompressed ++ s.compressed)

section

variable (config : Config)

/-- What becomes of a compressed buffer: it is queued, or goes through `write_chunk`. -/
def handOn (s : State) (compressed : Buffer) : State :=
  if config.multithreadedWrite then { s with compressed := compressed :: s.compressed }
  else { s with file := s.file ++ [compressed.claimed] }

/-- `compress_chunk`, and what both its callers do with the result. -/
def packChunk (s : State) (uncompressed : Buffer) : Option State :=
  (compressChunk config uncompressed).map (handOn config s)

/-- What `make_space` and `finalize` do with the current chunk when it is not kept back. -/
def closeChunk (s : State) : Option State :=
  let closed := s.chunk.shrink s.uidx
  if config.multithreadedCompress then
    some { s with uncompressed := closed :: s.uncompressed }
  else
    packChunk config s closed

/-- `make_space`. -/
def makeSpace (s : State) (size : Nat) : Option State :=
  let closed :=
    if s.holding then some { s with held := s.chunk.shrink s.uidx :: s.held }
    else closeChunk config s
  closed.map fun s =>
    { s with
      chunk := Buffer.new (if size > s.chunkSize then size else s.chunkSize)
      uidx := 0 }

/-- `check_space`. -/
def checkSpace (s : State) (size : Nat) : Option State :=
  if size > s.chunk.size - s.uidx then makeSpace config s size else some s

/-- The copy at the end of every write, with the assertion behind it; `uidx` is an
`unsigned`. -/
def put (s : State) (bytes : List UInt8) : Option State :=
  let uidx := (s.uidx + bytes.length) % 2 ^ 32
  if uidx ≤ s.chunk.size then
    some { s with chunk := s.chunk.store s.uidx bytes, uidx := uidx }
  else
    none

/-- A write of bytes that stay in one chunk; their number is an `unsigned`. -/
def writeBlock (s : State) (bytes : List UInt8) : Option State :=
  if s.finalized = false ∧ bytes.length < 2 ^ 32 then
    (checkSpace config s bytes.length).bind (put · bytes)
  else
    none

/-- `change_default_chunk_size`. -/
def changeDefaultChunkSize (s : State) (size : Nat) : Option State :=
  if s.uidx < size then some { s with chunkSize := size, chunk := s.chunk.shrink size }
  else none

/-- `thaw`. -/
def thaw (s : State) : State :=
  if s.holding then
    { s with holding := false, held := [], uncompressed := s.held ++ s.uncompressed }
  else
    s

/-- The critical section of `finalize`; the writer is not used again. -/
def finalize (s : State) : Option State :=
  if s.finalized = false ∧ s.held = [] then
    (closeChunk config s).map fun s =>
      { s with chunk := Buffer.new s.chunkSize, finalized := true }
  else
    none

/-- A round of `compressor`.  An empty buffer is dropped. -/
def compressorRound (s : State) : Option State :=
  match s.uncompressed.getLast? with
  | none => none
  | some uncompressed =>
      let taken := { s with uncompressed := s.uncompressed.dropLast }
      if uncompressed.size > 0 then packChunk config taken uncompressed else some taken

/-- A round of `serializer`, with `write_chunk`. -/
def serializerRound (s : State) : Option State :=
  match s.compressed.getLast? with
  | none => none
  | some active =>
      let taken := { s with compressed := s.compressed.dropLast }
      if active.size > 0 then some { taken with file := s.file ++ [active.claimed] }
      else some taken

/-- The steps of the producer and of the two workers. -/
inductive Label where
  | write (bytes : List UInt8)
  | changeDefaultChunkSize (size : Nat)
  | freeze
  | thaw
  | finalize
  | compressorRound
  | serializerRound
deriving DecidableEq, Repr

/-- One step of any of them. -/
def step (s : State) : Label → Option State
  | .write bytes => writeBlock config s bytes
  | .changeDefaultChunkSize size => changeDefaultChunkSize s size
  | .freeze => some { s with holding := true }
  | .thaw => some (thaw s)
  | .finalize => finalize config s
  | .compressorRound => compressorRound config s
  | .serializerRound => serializerRound s

/-- No buffer claims more than was allocated for it, and what was written for a chunk is a
header of 16 bytes and the payload that the compression has put behind it. -/
structure Sound (s : State) : Prop where
  owned : ∀ b ∈ s.buffers, b.size ≤ b.allocated
  written : ∀ bytes ∈ s.file, ∃ input,
    bytes = (recordBytes (record config input)).map some

/-- The step compresses a chunk. -/
def packs (s : State) : Label → Bool
  | .write bytes =>
      bytes.length > s.chunk.size - s.uidx && !s.holding && !config.multithreadedCompress
  | .finalize => !config.multithreadedCompress
  | .compressorRound => s.uncompressed.getLast?.any fun uncompressed => uncompressed.size > 0
  | _ => false

/-- The step gives the current chunk a size that is larger than its memory. -/
def enlarges (s : State) : Label → Bool
  | .changeDefaultChunkSize size => s.chunk.allocated < size
  | _ => false

/-- The step compresses no chunk in the uncompressed format and enlarges no chunk. -/
def Fitting (s : State) (label : Label) : Prop :=
  (packs config s label = true → config.type ≠ .uncompressed) ∧ enlarges s label = false

instance (s : State) (label : Label) : Decidable (Fitting config s label) :=
  inferInstanceAs (Decidable (_ ∧ _))

end

/-! ## One buffer -/

/-- Neither the size nor what was initialised goes beyond the memory. -/
def Buffer.Owned (b : Buffer) : Prop := b.size ≤ b.allocated ∧ b.bytes.length ≤ b.allocated

/-- A chunk that waits for its compression: all it claims has been initialised. -/
def Buffer.Closed (b : Buffer) : Prop := b.Owned ∧ b.size ≤ b.bytes.length

/-- A compressed buffer that claims its record and nothing else. -/
def Buffer.Packed (config : Config) (b : Buffer) : Prop :=
  b.Owned ∧ b.size = b.bytes.length ∧ ∃ input, b.bytes = recordBytes (record config input)

/-- A buffer that claims more than it owns and more than was initialised. -/
def Buffer.Overdrawn (b : Buffer) : Prop := b.allocated < b.size ∧ b.bytes.length < b.size

theorem owned_new (size : Nat) : (Buffer.new size).Owned := ⟨le_rfl, Nat.zero_le _⟩

theorem store_length (b : Buffer) {pos : Nat} (bytes : List UInt8)
    (hpos : pos ≤ b.bytes.length) :
    (b.store pos bytes).bytes.length = max b.bytes.length (pos + bytes.length) := by
  simp only [Buffer.store, List.length_append, List.length_take, List.length_drop]
  omega

theorem claimed_of_initialised {b : Buffer} (hsize : b.size = b.bytes.length) :
    b.claimed = b.bytes.map some := by
  simp [Buffer.claimed, hsize]

/-- What was not initialised shows in the file. -/
theorem claimed_ne_initialised {b : Buffer} (hsize : b.bytes.length < b.size)
    (bytes : List UInt8) : b.claimed ≠ bytes.map some := by
  intro hclaimed
  have hnone : none ∈ b.claimed := by
    simp only [Buffer.claimed, List.mem_append, List.mem_replicate]
    exact Or.inr ⟨by omega, trivial⟩
  rw [hclaimed] at hnone
  simp at hnone

section

variable {config : Config} {s next : State} {b compressed : Buffer}

/-- **`compress_chunk`** for density and LZ4: the record fits into what was allocated. -/
theorem compressChunk_packed (hbounded : config.Bounded) (htype : config.type ≠ .uncompressed)
    (hclosed : b.Closed) (hcompress : compressChunk config b = some compressed) :
    compressed.Packed config := by
  have hinput : (b.bytes.take b.size).length = b.size := List.length_take_of_le hclosed.2
  unfold compressChunk at hcompress
  dsimp only at hcompress
  split at hcompress
  · cases hcompress
  · cases hcompress
    -- the codecs promise their bound, and the header is part of what was allocated
    have hrecord : (recordBytes (record config (b.bytes.take b.size))).length =
          (record config (b.bytes.take b.size)).wasWritten + 16 ∧
        (record config (b.bytes.take b.size)).wasWritten + 16 ≤ allocation config b.size := by
      rw [recordBytes_length]
      unfold record Container.compressChunk allocation
      cases htype' : config.type with
      | density =>
          have := hbounded.density (b.bytes.take b.size)
          rw [hinput] at this
          exact ⟨Nat.add_comm .., by simpa using this⟩
      | lz4 =>
          have := hbounded.lz4 (b.bytes.take b.size)
          rw [hinput] at this
          exact ⟨Nat.add_comm .., by simpa using this⟩
      | uncompressed => exact absurd htype' htype
    obtain ⟨hlength, hroom⟩ := hrecord
    have hbytes : (((Buffer.new (allocation config b.size)).store 0
        (recordBytes (record config (b.bytes.take b.size)))).shrink
          ((record config (b.bytes.take b.size)).wasWritten + 16)).bytes =
        recordBytes (record config (b.bytes.take b.size)) := by
      simp [Buffer.store, Buffer.new, Buffer.shrink]
    refine ⟨⟨hroom, ?_⟩, ?_, _, hbytes⟩
    · rw [hbytes, hlength]
      exact hroom
    · rw [hbytes, hlength]
      rfl

/-- **`compress_chunk`** for uncompressed chunks: the size of the buffer is stored as the
size of the payload, and the header is added to it once more. -/
theorem compressChunk_overdrawn (htype : config.type = .uncompressed)
    (hcompress : compressChunk config b = some compressed) (hclosed : b.Closed) :
    compressed.Overdrawn := by
  have hinput : (b.bytes.take b.size).length = b.size := List.length_take_of_le hclosed.2
  unfold compressChunk at hcompress
  rw [if_neg (by simp [htype])] at hcompress
  cases hcompress
  simp only [Buffer.Overdrawn, Buffer.store, Buffer.new, Buffer.shrink, allocation, record,
    Container.compressChunk, htype, hinput, List.take_nil, List.nil_append, List.drop_nil,
    List.append_nil, recordBytes_length]
  omega

end

/-! ## The writer -/

/-- What every run keeps. -/
structure Inv (config : Config) (s : State) : Prop where
  chunk : s.chunk.Owned
  current : s.finalized = false →
    s.uidx ≤ s.chunk.bytes.length ∧ s.uidx ≤ s.chunk.size
  waiting : ∀ b ∈ s.held ++ s.uncompressed, b.Closed
  compressed : ∀ b ∈ s.compressed, b.Packed config
  written : ∀ bytes ∈ s.file, ∃ input,
    bytes = (recordBytes (record config input)).map some

theorem inv_init (config : Config) (chunkSize : Nat) :
    Inv config (State.init chunkSize) where
  chunk := owned_new chunkSize
  current _ := ⟨Nat.zero_le _, Nat.zero_le _⟩
  waiting := by simp [State.init]
  compressed := by simp [State.init]
  written := by simp [State.init]

section

variable {config : Config} {s next : State} {b packed : Buffer}

theorem Inv.sound (hinv : Inv config s) : Sound config s := by
  refine ⟨fun b hb => ?_, hinv.written⟩
  simp only [State.buffers, List.mem_cons, List.mem_append] at hb
  rcases hb with rfl | hwaiting | hcompressed
  · exact hinv.chunk.1
  · exact (hinv.waiting b (List.mem_append.mpr hwaiting)).1.1
  · exact (hinv.compressed b hcompressed).1.1

/-- The current chunk, cut off at what was written into it. -/
theorem Inv.closed (hinv : Inv config s) (hopen : s.finalized = false) :
    (s.chunk.shrink s.uidx).Closed := by
  obtain ⟨hbytes, hsize⟩ := hinv.current hopen
  exact ⟨⟨hsize.trans hinv.chunk.1, hinv.chunk.2⟩, hbytes⟩

theorem handOn_inv (hinv : Inv config s) (hpacked : packed.Packed config) :
    Inv config (handOn config s packed) := by
  unfold handOn
  split
  · exact { hinv with compressed := List.forall_mem_cons.mpr ⟨hpacked, hinv.compressed⟩ }
  · refine { hinv with written := fun bytes hbytes => ?_ }
    rcases List.mem_append.mp hbytes with hbytes | hbytes
    · exact hinv.written bytes hbytes
    · obtain ⟨-, hsize, input, hrecord⟩ := hpacked
      rw [List.mem_singleton.mp hbytes, claimed_of_initialised hsize, hrecord]
      exact ⟨input, rfl⟩

/-- A buffer that claims too much shows in the queue or in the file. -/
theorem handOn_unsound (hoverdrawn : packed.Overdrawn)
    (hcompressed : next.compressed = (handOn config s packed).compressed)
    (hfile : next.file = (handOn config s packed).file) : ¬Sound config next := by
  intro hsound
  unfold handOn at hcompressed hfile
  split at hcompressed
  · have hmem : packed ∈ next.buffers := by
      simp [State.buffers, hcompressed]
    exact absurd (hsound.owned packed hmem) (Nat.not_le.mpr hoverdrawn.1)
  · case _ hmode =>
      rw [if_neg hmode] at hfile
      obtain ⟨input, hinput⟩ := hsound.written packed.claimed (by simp [hfile])
      exact claimed_ne_initialised hoverdrawn.2 _ hinput

/-- **A chunk that is compressed**: it keeps the invariant unless its format is the
uncompressed one, and then the result claims too much. -/
theorem packChunk_inv (hbounded : config.Bounded) (hinv : Inv config s) (hclosed : b.Closed)
    (hpack : packChunk config s b = some next) :
    (config.type ≠ .uncompressed → Inv config next) ∧
      (config.type = .uncompressed → ∀ after : State, after.compressed = next.compressed →
        after.file = next.file → ¬Sound config after) := by
  obtain ⟨packed, hcompress, rfl⟩ := Option.map_eq_some_iff.mp hpack
  refine ⟨fun htype => ?_, fun htype after hcompressed hfile => ?_⟩
  · exact handOn_inv hinv (compressChunk_packed hbounded htype hclosed hcompress)
  · exact handOn_unsound (compressChunk_overdrawn htype hcompress hclosed) hcompressed hfile

/-- A step that compresses nothing in the uncompressed format keeps the invariant; any other
one leaves a buffer that claims too much, whatever is done to the current chunk behind it. -/
structure Outcome (config : Config) (packs : Bool) (next : State) : Prop where
  keeps : (packs = true → config.type ≠ .uncompressed) → Inv config next
  breaks : packs = true → config.type = .uncompressed → ∀ after : State,
    after.compressed = next.compressed → after.file = next.file → ¬Sound config after

theorem Inv.outcome (hinv : Inv config next) : Outcome config false next :=
  ⟨fun _ => hinv, fun h => nomatch h⟩

theorem packChunk_outcome (hbounded : config.Bounded) (hinv : Inv config s)
    (hclosed : b.Closed) (hpack : packChunk config s b = some next) :
    Outcome config true next := by
  obtain ⟨hkeeps, hbreaks⟩ := packChunk_inv hbounded hinv hclosed hpack
  exact ⟨fun htype => hkeeps (htype rfl), fun _ => hbreaks⟩

/-- A fresh chunk. -/
theorem Outcome.fresh {packs : Bool} (houtcome : Outcome config packs s) (size uidx : Nat)
    (finalized : Bool) (huidx : finalized = false → uidx = 0) :
    Outcome config packs
      { s with chunk := Buffer.new size, uidx := uidx, finalized := finalized } := by
  refine ⟨fun htype => ?_, houtcome.breaks⟩
  refine { houtcome.keeps htype with chunk := owned_new size, current := fun hopen => ?_ }
  have hzero : uidx = 0 := huidx hopen
  exact ⟨hzero.le, hzero.le.trans (Nat.zero_le _)⟩

theorem closeChunk_outcome (hbounded : config.Bounded) (hinv : Inv config s)
    (hopen : s.finalized = false) (hclose : closeChunk config s = some next) :
    Outcome config (!config.multithreadedCompress) next := by
  have hclosed := hinv.closed hopen
  unfold closeChunk at hclose
  dsimp only at hclose
  split at hclose
  · case _ hmode =>
      cases hclose
      rw [hmode]
      refine Inv.outcome { hinv with waiting := fun b hb => ?_ }
      rcases List.mem_append.mp hb with hheld | hqueued
      · exact hinv.waiting b (List.mem_append_left _ hheld)
      · rcases List.mem_cons.mp hqueued with rfl | hqueued
        · exact hclosed
        · exact hinv.waiting b (List.mem_append_right _ hqueued)
  · case _ hmode =>
      rw [Bool.not_eq_true] at hmode
      rw [hmode]
      exact packChunk_outcome hbounded hinv hclosed hclose

theorem closeChunk_frame (hclose : closeChunk config s = some next) :
    next.finalized = s.finalized ∧ next.uidx = s.uidx := by
  unfold closeChunk packChunk at hclose
  dsimp only at hclose
  split at hclose
  · cases hclose
    exact ⟨rfl, rfl⟩
  · obtain ⟨packed, -, rfl⟩ := Option.map_eq_some_iff.mp hclose
    unfold handOn
    split
    · exact ⟨rfl, rfl⟩
    · exact ⟨rfl, rfl⟩

/-- **`make_space`**. -/
theorem makeSpace_outcome (hbounded : config.Bounded) (hinv : Inv config s)
    (hopen : s.finalized = false) {size : Nat} (hspace : makeSpace config s size = some next) :
    Outcome config (!s.holding && !config.multithreadedCompress) next ∧
      next.finalized = false ∧ next.uidx = 0 ∧ size ≤ next.chunk.size := by
  obtain ⟨closed, hclose, rfl⟩ := Option.map_eq_some_iff.mp hspace
  have hroom : size ≤
      (Buffer.new (if size > closed.chunkSize then size else closed.chunkSize)).size := by
    simp only [Buffer.new]
    split
    · exact le_rfl
    · case _ hsmall => exact Nat.le_of_not_gt hsmall
  cases hholding : s.holding with
  | true =>
      rw [if_pos hholding] at hclose
      cases hclose
      have hkept : Inv config { s with held := s.chunk.shrink s.uidx :: s.held } :=
        { hinv with waiting := List.forall_mem_cons.mpr ⟨hinv.closed hopen, hinv.waiting⟩ }
      exact ⟨hkept.outcome.fresh _ 0 s.finalized (fun _ => rfl), hopen, rfl, hroom⟩
  | false =>
      rw [if_neg (by simp [hholding])] at hclose
      have hfinalized := (closeChunk_frame hclose).1.trans hopen
      refine ⟨?_, hfinalized, rfl, hroom⟩
      rw [Bool.not_false, Bool.true_and]
      exact (closeChunk_outcome hbounded hinv hopen hclose).fresh _ 0 closed.finalized
        (fun _ => rfl)

/-- The copy at the end of a write, into a chunk that has the space. -/
theorem put_outcome {packs : Bool} (houtcome : Outcome config packs s)
    {bytes : List UInt8} (hroom : Inv config s → s.uidx ≤ s.chunk.bytes.length ∧
      s.uidx + bytes.length ≤ s.chunk.size)
    (hput : put s bytes = some next) : Outcome config packs next := by
  unfold put at hput
  dsimp only at hput
  split at hput
  · cases hput
    refine ⟨fun htype => ?_, houtcome.breaks⟩
    have hinv := houtcome.keeps htype
    obtain ⟨hbytes, hfits⟩ := hroom hinv
    obtain ⟨hsize, hlength⟩ := hinv.chunk
    have hstored := store_length s.chunk bytes hbytes
    have hwrapped := Nat.mod_le (s.uidx + bytes.length) (2 ^ 32)
    refine { hinv with chunk := ⟨hsize, ?_⟩, current := fun _ => ⟨?_, hwrapped.trans hfits⟩ }
    · show _ ≤ s.chunk.allocated
      rw [hstored]
      omega
    · show (s.uidx + bytes.length) % 2 ^ 32 ≤ (s.chunk.store s.uidx bytes).bytes.length
      rw [hstored]
      omega
  · cases hput

/-- **A write**. -/
theorem writeBlock_outcome (hbounded : config.Bounded) (hinv : Inv config s)
    {bytes : List UInt8} (hwrite : writeBlock config s bytes = some next) :
    Outcome config (packs config s (.write bytes)) next := by
  unfold writeBlock at hwrite
  split at hwrite
  · case _ henabled =>
      obtain ⟨checked, hchecked, hput⟩ := Option.bind_eq_some_iff.mp hwrite
      unfold checkSpace at hchecked
      split at hchecked
      -- the block does not fit: the current chunk is closed first
      · case _ hlarge =>
          obtain ⟨houtcome, -, huidx, hspace⟩ :=
            makeSpace_outcome hbounded hinv henabled.1 hchecked
          have hpacks : packs config s (.write bytes) =
              (!s.holding && !config.multithreadedCompress) := by
            simp [packs, hlarge]
          rw [hpacks]
          refine put_outcome houtcome (fun _ => ⟨?_, ?_⟩) hput
          · rw [huidx]
            exact Nat.zero_le _
          · rw [huidx, Nat.zero_add]
            exact hspace
      -- nothing is closed, so no compression can go wrong
      · case _ hsmall =>
          cases hchecked
          obtain ⟨hbytes, hsize⟩ := hinv.current henabled.1
          have hpacks : packs config s (.write bytes) = false := by
            simp [packs, hsmall]
          rw [hpacks]
          exact put_outcome hinv.outcome (fun _ => ⟨hbytes, by omega⟩) hput
  · cases hwrite

theorem finalize_outcome (hbounded : config.Bounded) (hinv : Inv config s)
    (hfinalize : finalize config s = some next) :
    Outcome config (packs config s .finalize) next := by
  unfold finalize at hfinalize
  split at hfinalize
  · case _ henabled =>
      obtain ⟨closed, hclose, rfl⟩ := Option.map_eq_some_iff.mp hfinalize
      exact (closeChunk_outcome hbounded hinv henabled.1 hclose).fresh _ closed.uidx true
        (fun h => nomatch h)
  · cases hfinalize

/-- The lists without a buffer that a worker has taken. -/
theorem Inv.mono {held uncompressed compressed : List Buffer} (hinv : Inv config s)
    (hwaiting : ∀ b ∈ held ++ uncompressed, b ∈ s.held ++ s.uncompressed)
    (hcompressed : ∀ b ∈ compressed, b ∈ s.compressed) (holding : Bool) :
    Inv config { s with
      holding := holding
      held := held
      uncompressed := uncompressed
      compressed := compressed } where
  chunk := hinv.chunk
  current := hinv.current
  waiting b hb := hinv.waiting b (hwaiting b hb)
  compressed b hb := hinv.compressed b (hcompressed b hb)
  written := hinv.written

theorem compressorRound_outcome (hbounded : config.Bounded) (hinv : Inv config s)
    (hround : compressorRound config s = some next) :
    Outcome config (packs config s .compressorRound) next := by
  unfold compressorRound at hround
  split at hround
  · cases hround
  · case _ uncompressed hlast =>
      have htaken : Inv config { s with uncompressed := s.uncompressed.dropLast } := by
        refine hinv.mono (fun b hb => ?_) (fun b hb => hb) s.holding
        rcases List.mem_append.mp hb with hheld | hqueued
        · exact List.mem_append_left _ hheld
        · exact List.mem_append_right _ (List.dropLast_subset _ hqueued)
      have hclosed := hinv.waiting uncompressed
        (List.mem_append_right _ (List.mem_of_getLast? hlast))
      dsimp only at hround
      split at hround
      · case _ hsize =>
          rw [show packs config s .compressorRound = true by simp [packs, hlast, hsize]]
          exact packChunk_outcome hbounded htaken hclosed hround
      · case _ hsize =>
          cases hround
          rw [show packs config s .compressorRound = false by
            simpa [packs, hlast] using hsize]
          exact htaken.outcome

theorem serializerRound_inv (hinv : Inv config s) (hround : serializerRound s = some next) :
    Inv config next := by
  unfold serializerRound at hround
  split at hround
  · cases hround
  · case _ active hlast =>
      have htaken : Inv config { s with compressed := s.compressed.dropLast } :=
        hinv.mono (fun b hb => hb) (fun b hb => List.dropLast_subset _ hb) s.holding
      dsimp only at hround
      split at hround
      · cases hround
        obtain ⟨-, hsize, input, hrecord⟩ :=
          hinv.compressed active (List.mem_of_getLast? hlast)
        refine { htaken with written := fun bytes hbytes => ?_ }
        rcases List.mem_append.mp hbytes with hbytes | hbytes
        · exact hinv.written bytes hbytes
        · rw [List.mem_singleton.mp hbytes, claimed_of_initialised hsize, hrecord]
          exact ⟨input, rfl⟩
      · cases hround
        exact htaken

/-- **One step**: a fitting one keeps the invariant, and one that leaves a sound state was
fitting. -/
theorem step_spec (hbounded : config.Bounded) (hinv : Inv config s) {label : Label}
    (hstep : step config s label = some next) :
    (Fitting config s label → Inv config next) ∧
      (Sound config next → Fitting config s label) := by
  -- every step but a change of the chunk size is fitting just by what it packs
  have hpacking (houtcome : Outcome config (packs config s label) next)
      (hother : enlarges s label = false) :
      (Fitting config s label → Inv config next) ∧
        (Sound config next → Fitting config s label) := by
    refine ⟨fun hfitting => houtcome.keeps hfitting.1,
      fun hsound => ⟨fun hpacks htype => ?_, hother⟩⟩
    exact houtcome.breaks hpacks htype next rfl rfl hsound
  cases label with
  | write bytes => exact hpacking (writeBlock_outcome hbounded hinv hstep) rfl
  | finalize => exact hpacking (finalize_outcome hbounded hinv hstep) rfl
  | compressorRound => exact hpacking (compressorRound_outcome hbounded hinv hstep) rfl
  | serializerRound => exact hpacking (serializerRound_inv hinv hstep).outcome rfl
  | freeze =>
      cases hstep
      have hkept := hinv.mono (fun b hb => hb) (fun b hb => hb) true
      exact hpacking hkept.outcome rfl
  | thaw =>
      cases hstep
      refine hpacking (Inv.outcome ?_) rfl
      unfold thaw
      split
      · exact hinv.mono (fun b hb => by simpa using hb) (fun b hb => hb) false
      · exact hinv
  | changeDefaultChunkSize size =>
      simp only [step, changeDefaultChunkSize] at hstep
      split at hstep
      · case _ huidx =>
          cases hstep
          -- the empty chunk takes the new size as its room, whatever was allocated
          refine ⟨fun hfitting => ?_, fun hsound => ⟨(fun hpacks => nomatch hpacks), ?_⟩⟩
          · have hsize : size ≤ s.chunk.allocated := by
              simpa [enlarges] using hfitting.2
            exact { hinv with
              chunk := ⟨hsize, hinv.chunk.2⟩
              current := fun hopen => ⟨(hinv.current hopen).1, huidx.le⟩ }
          · have hsize : size ≤ s.chunk.allocated :=
              hsound.owned (s.chunk.shrink size) List.mem_cons_self
            simpa [enlarges] using hsize
      · cases hstep

end

/-- **Buffers claim what they own.**  With libraries that keep to their documented bounds,
in every mode and for every format: all states of a run are sound exactly as long as its
steps are fitting. -/
theorem sound_iff_along (config : Config) (hbounded : config.Bounded) (chunkSize : Nat)
    (labels : List Label) (final : State)
    (hrun : exec (step config) (State.init chunkSize) labels = some final) :
    (∀ k s, exec (step config) (State.init chunkSize) (labels.take k) = some s →
        Sound config s) ↔
      Along (step config) (Fitting config) (State.init chunkSize) labels :=
  prefixes_iff_along (fun _ hinv => Inv.sound hinv)
    (fun _ _ _ hinv hfitting hstep => (step_spec hbounded hinv hstep).1 hfitting)
    (fun _ _ _ hinv hstep hsound => (step_spec hbounded hinv hstep).2 hsound)
    (inv_init config chunkSize) hrun

/-- A writer with the literal LZ4 and the copying density. -/
def literalConfig (type : CompressionType) : Config where
  codecs := literalCodecs
  densityCompressSafeSize size := size + 512
  lz4CompressBound size := size + size / 255 + 16
  type := type

theorem literalConfig_bounded (type : CompressionType) : (literalConfig type).Bounded where
  density input := by simp [literalConfig, literalCodecs]
  lz4 input := by
    simp only [literalConfig, literalCodecs, List.length_cons]
    omega

/-- Three bytes, compressed and written by the two workers. -/
def threeBytesRun : List Label :=
  [.write [1, 2, 3], .changeDefaultChunkSize 4, .finalize, .compressorRound,
    .serializerRound]

theorem sound_iff_along_threeBytesRun :
    ∃ final, exec (step (literalConfig .lz4)) (State.init 8) threeBytesRun = some final ∧
      final.file =
        [([4, 0, 0, 0, 0, 0, 0, 0, 3, 0, 0, 0, 0, 0, 0, 0, 48, 1, 2, 3]).map some] ∧
      Sound (literalConfig .lz4) final := by
  refine ⟨_, rfl, by decide +kernel, ?_⟩
  exact (sound_iff_along _ (literalConfig_bounded .lz4) 8 threeBytesRun _ rfl).mpr
    (by decide +kernel) threeBytesRun.length _ rfl

/-- In the uncompressed format the same run leaves a buffer that claims sixteen bytes which
it does not own, and writes them to the file. -/
theorem uncompressed_record_overdrawn :
    ∃ s final,
      exec (step (literalConfig .uncompressed)) (State.init 8) (threeBytesRun.take 4) = some s ∧
      exec (step (literalConfig .uncompressed)) (State.init 8) threeBytesRun = some final ∧
      (∃ b ∈ s.buffers, b.allocated = 19 ∧ b.size = 35) ∧
      (∃ bytes ∈ final.file, bytes.length = 35 ∧ bytes.count none = 16) ∧
      ¬Sound (literalConfig .uncompressed) s ∧ ¬Sound (literalConfig .uncompressed) final := by
  refine ⟨_, _, rfl, rfl, by decide +kernel, by decide +kernel, fun hsound => ?_,
    fun hsound => ?_⟩
  · exact absurd hsound.owned (by decide +kernel)
  · obtain ⟨input, hinput⟩ := hsound.written _ List.mem_cons_self
    have hnone := congrArg (List.count none) hinput
    rw [List.count_eq_zero_of_not_mem (a := none) (l := List.map some _) (by simp)] at hnone
    exact absurd hnone (by decide +kernel)

end Buffers
end Lavatube
