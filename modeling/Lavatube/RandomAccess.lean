import Lavatube.Container
import Lavatube.Lib.PartitionPoint

/-!
# The random access reader

`random_access_file_reader` scans the chunk headers of a stream file once, and
then serves reads at any position: a binary search over the chunk directory, one
chunk that is kept decompressed, and a copy loop across chunk borders.

* `scanChunks_records` — when a file is accepted, and its directory.
* `Reader.Serves` — what a reader that was opened on a list of chunks keeps.
* `answers_eq_slices` — every sequence of calls is answered from the stream.
-/

namespace Lavatube
namespace RandomAccess

open FileWriter Pipeline Container Transition PartitionPoint

/-- `random_access_chunk_info`. -/
structure ChunkInfo where
  compressedOffset : Nat
  compressedSize : Nat
  uncompressedOffset : Nat
  uncompressedSize : Nat
deriving DecidableEq, Repr, Inhabited

/-- The members of `random_access_file_reader`. -/
structure Reader where
  mappedData : List UInt8
  chunks : List ChunkInfo
  chunkData : List UInt8 := []
  totalUncompressed : Nat
  position : Nat := 0
  loadedChunk : Option Nat := none
  decompressionCount : Nat := 0
  compressionAlgorithm : CompressionType
  streamVersion : UInt8
deriving DecidableEq, Repr

/-- `remaining`. -/
def Reader.remaining (reader : Reader) : Nat := reader.totalUncompressed - reader.position

/-- The scan loop of `initialize` from a stream offset on: the directory and the
uncompressed size.  Every round consumes at least 16 bytes, so that the first
argument, which starts as the size of the file, does not run out. -/
def scanChunks (data : List UInt8) : Nat → Nat → Nat → Option (List ChunkInfo × Nat)
  | 0, _, uncompressedOffset => some ([], uncompressedOffset)
  | rounds + 1, streamOffset, uncompressedOffset =>
      if streamOffset < data.length then
        if data.length - streamOffset < 16 then
          none
        else
          let compressedSize := LittleEndian.decode ((data.drop streamOffset).take 8)
          let uncompressedSize :=
            LittleEndian.decode (((data.drop streamOffset).drop 8).take 8)
          let payloadOffset := streamOffset + 16
          if compressedSize = 0 ∨ uncompressedSize = 0 then
            none
          else if compressedSize > data.length - payloadOffset then
            none
          else if uncompressedSize > 2 ^ 64 - 1 - uncompressedOffset then
            none
          else
            match scanChunks data rounds (payloadOffset + compressedSize)
                (uncompressedOffset + uncompressedSize) with
            | none => none
            | some (chunks, total) =>
                some (⟨payloadOffset, compressedSize, uncompressedOffset,
                  uncompressedSize⟩ :: chunks, total)
      else
        some ([], uncompressedOffset)

/-- The stream version, the compression algorithm and the offset of the first
chunk.  A file without the magic word is an old density stream. -/
def streamHeader (data : List UInt8) : Option (UInt8 × UInt8 × Nat) :=
  if data.take 7 = magicWord then
    if data.length < 39 then none else some (data.getD 7 0, data.getD 8 0, 39)
  else
    some (0, CompressionType.density.code, 0)

/-- The constructor with `initialize`; `none` is an abort. -/
def initializeReader (data : List UInt8) : Option Reader :=
  if data.length = 0 then
    none
  else
    match streamHeader data with
    | none => none
    | some (version, code, streamOffset) =>
        match CompressionType.ofCode code with
        | none => none
        | some algorithm =>
            match scanChunks data data.length streamOffset 0 with
            | none => none
            | some ([], _) => none
            | some (info :: chunks, total) =>
                some
                  { mappedData := data
                    chunks := info :: chunks
                    totalUncompressed := total
                    compressionAlgorithm := algorithm
                    streamVersion := version }

/-- `find_chunk`, with its assertions. -/
def findChunk (reader : Reader) (position : Nat) : Option Nat :=
  if position < reader.totalUncompressed then
    let first := partitionPoint
      (fun middle => (reader.chunks.getD middle default).uncompressedOffset ≤ position)
      reader.chunks.length 0 reader.chunks.length
    if first > 0 then
      let info := reader.chunks.getD (first - 1) default
      if position < info.uncompressedOffset + info.uncompressedSize then some (first - 1)
      else none
    else
      none
  else
    none

/-- The contents of a chunk, as `load_chunk` puts them into `mChunkData`.  The
tests against `SIZE_MAX` cannot fail where `size_t` has 64 bits. -/
def unpackChunk (codecs : Codecs) (data : List UInt8) (algorithm : CompressionType)
    (info : ChunkInfo) : Option (List UInt8) :=
  let source := data.drop info.compressedOffset
  match algorithm with
  | .density =>
      match codecs.densityDecompress (source.take info.compressedSize)
          (codecs.densitySafeSize info.uncompressedSize) with
      | none => none
      | some (bytes, bytesRead) =>
          if bytesRead > info.compressedSize ∨ bytes.length ≠ info.uncompressedSize then
            none
          else
            some bytes
  | .lz4 =>
      if info.compressedSize > 2 ^ 31 - 1 ∨ info.uncompressedSize > 2 ^ 31 - 1 then
        none
      else
        match codecs.lz4Decompress (source.take info.compressedSize)
            info.uncompressedSize with
        | none => none
        | some bytes => if bytes.length ≠ info.uncompressedSize then none else some bytes
  | .uncompressed =>
      -- streams of version 3 count the chunk header in the compressed size
      if info.compressedSize ≠ info.uncompressedSize ∧
          ¬(info.uncompressedSize ≤ 2 ^ 64 - 1 - 16 ∧
            info.compressedSize = info.uncompressedSize + 16) then
        none
      else
        some (source.take info.uncompressedSize)

/-- `load_chunk`. -/
def loadChunk (codecs : Codecs) (reader : Reader) (chunkIndex : Nat) : Option Reader :=
  if reader.loadedChunk = some chunkIndex then
    some reader
  else
    match reader.chunks[chunkIndex]? with
    | none => none
    | some info =>
        match unpackChunk codecs reader.mappedData reader.compressionAlgorithm info with
        | none => none
        | some bytes =>
            some { reader with
              chunkData := bytes
              loadedChunk := some chunkIndex
              decompressionCount := reader.decompressionCount + 1 }

/-- `seek`. -/
def seek (reader : Reader) (position : Nat) : Option Reader :=
  if position > reader.totalUncompressed then none
  else some { reader with position := position }

/-- The copy loop of `read_bytes`; every round copies at least one byte. -/
def copyBytes (codecs : Codecs) : Nat → Reader → Nat → Option (Reader × List UInt8)
  | 0, reader, _ => some (reader, [])
  | rounds + 1, reader, byteCount =>
      if byteCount > 0 then
        match findChunk reader reader.position with
        | none => none
        | some chunkIndex =>
            match loadChunk codecs reader chunkIndex with
            | none => none
            | some reader =>
                let info := reader.chunks.getD chunkIndex default
                let offset := reader.position - info.uncompressedOffset
                let available := info.uncompressedSize - offset
                let copySize := min byteCount available
                match copyBytes codecs rounds
                    { reader with position := reader.position + copySize }
                    (byteCount - copySize) with
                | none => none
                | some (final, rest) =>
                    some (final, (reader.chunkData.drop offset).take copySize ++ rest)
      else
        some (reader, [])

/-- `read_bytes` into a buffer that is not null. -/
def readBytes (codecs : Codecs) (reader : Reader) (byteCount : Nat) :
    Option (Reader × List UInt8) :=
  if byteCount > reader.remaining then none
  else copyBytes codecs byteCount reader byteCount

/-- The calls of a user. -/
inductive Call where
  | seek (position : Nat)
  | readBytes (byteCount : Nat)
deriving DecidableEq, Repr

/-- What the reads of a sequence of calls return, one after the other. -/
def answers (codecs : Codecs) (reader : Reader) : List Call → Option (List (List UInt8))
  | [] => some []
  | .seek position :: calls =>
      match seek reader position with
      | none => none
      | some next => answers codecs next calls
  | .readBytes byteCount :: calls =>
      match readBytes codecs reader byteCount with
      | none => none
      | some (next, bytes) => (answers codecs next calls).map (bytes :: ·)

/-- The abstract reader: a position in a stream of bytes. -/
def slices (stream : List UInt8) (position : Nat) : List Call → Option (List (List UInt8))
  | [] => some []
  | .seek target :: calls =>
      if target ≤ stream.length then slices stream target calls else none
  | .readBytes byteCount :: calls =>
      if position + byteCount ≤ stream.length then
        (slices stream (position + byteCount) calls).map
          ((stream.drop position).take byteCount :: ·)
      else
        none

/-! ## The scan -/

/-- The stored sizes of a record fit their header, and its body is as long as it
says. -/
structure Fits (record : Compressed) : Prop where
  body : record.body.length = record.wasWritten
  wasWritten_lt : record.wasWritten < 2 ^ 64
  wasRead_lt : record.wasRead < 2 ^ 64

/-- The chunk that both sides of `initialize` call an empty one. -/
def isEmptyRecord (record : Compressed) : Bool :=
  record.wasWritten = 0 ∨ record.wasRead = 0

/-- The uncompressed size of a list of records. -/
def readSize (records : List Compressed) : Nat := (records.map Compressed.wasRead).sum

/-- The directory of records that lie at a stream offset. -/
def directory (streamOffset uncompressedOffset : Nat) : List Compressed → List ChunkInfo
  | [] => []
  | record :: rest =>
      ⟨streamOffset + 16, record.wasWritten, uncompressedOffset, record.wasRead⟩ ::
        directory (streamOffset + 16 + record.wasWritten)
          (uncompressedOffset + record.wasRead) rest

theorem directory_length (streamOffset uncompressedOffset : Nat)
    (records : List Compressed) :
    (directory streamOffset uncompressedOffset records).length = records.length := by
  induction records generalizing streamOffset uncompressedOffset with
  | nil => rfl
  | cons record rest ih => simp [directory, ih]

/-- **The scan.**  Records are accepted unless one of them is empty. -/
theorem scanChunks_records {data : List UInt8} {rounds streamOffset uncompressedOffset : Nat}
    {records : List Compressed} (hfits : ∀ record ∈ records, Fits record)
    (hoffset : streamOffset ≤ data.length)
    (hdata : data.drop streamOffset = (records.map recordBytes).flatten)
    (htotal : uncompressedOffset + readSize records < 2 ^ 64)
    (hrounds : records.length ≤ rounds) :
    scanChunks data rounds streamOffset uncompressedOffset =
      if records.any isEmptyRecord then none
      else some (directory streamOffset uncompressedOffset records,
        uncompressedOffset + readSize records) := by
  induction records generalizing rounds streamOffset uncompressedOffset with
  | nil =>
      -- the end of the file
      have hend : ¬streamOffset < data.length := by
        have := congrArg List.length hdata
        simp only [List.length_drop, List.map_nil, List.flatten_nil,
          List.length_nil] at this
        omega
      cases rounds with
      | zero => rfl
      | succ rounds => simp [scanChunks, hend, directory, readSize]
  | cons record rest ih =>
      obtain ⟨rounds, rfl⟩ : ∃ more, rounds = more + 1 :=
        ⟨rounds - 1, by simp only [List.length_cons] at hrounds; omega⟩
      have hrecord := hfits record (List.mem_cons_self ..)
      have hbody := hrecord.body
      simp only [List.map_cons, List.flatten_cons] at hdata
      obtain ⟨hwritten, hread, hpayload⟩ := recordBytes_append record
        (rest.map recordBytes).flatten hrecord.wasWritten_lt hrecord.wasRead_lt
      have hlength : data.length - streamOffset =
          16 + record.wasWritten + ((rest.map recordBytes).flatten).length := by
        have := congrArg List.length hdata
        simp only [List.length_drop, List.length_append, recordBytes_length] at this
        omega
      -- the next record stands right behind the body of this one
      have hnext : data.drop (streamOffset + 16 + record.wasWritten) =
          (rest.map recordBytes).flatten := by
        rw [← List.drop_drop, ← List.drop_drop, hdata, hpayload, ← hbody,
          List.drop_left' rfl]
      have hsize : readSize (record :: rest) = record.wasRead + readSize rest := by
        simp [readSize]
      unfold scanChunks
      rw [if_pos (by omega), if_neg (by omega)]
      simp only [hdata, hwritten, hread]
      by_cases hempty : record.wasWritten = 0 ∨ record.wasRead = 0
      · simp [hempty, isEmptyRecord]
      · rw [if_neg hempty, if_neg (by omega), if_neg (by omega),
          ih (fun other hother => hfits other (List.mem_cons_of_mem _ hother)) (by omega)
            hnext (by omega) (by simpa using hrounds)]
        have hrecordEmpty : isEmptyRecord record = false := by
          simpa [isEmptyRecord] using hempty
        rw [List.any_cons, hrecordEmpty, Bool.false_or]
        by_cases hany : rest.any isEmptyRecord = true
        · rw [if_pos hany, if_pos hany]
        · rw [if_neg hany, if_neg hany]
          simp only [hsize, directory, ← Nat.add_assoc]

/-- An entry of the directory leads to the body of its record. -/
theorem directory_getElem? {data : List UInt8} {streamOffset : Nat}
    (uncompressedOffset : Nat) {records : List Compressed}
    (hfits : ∀ record ∈ records, Fits record)
    (hdata : data.drop streamOffset = (records.map recordBytes).flatten)
    {i : Nat} {record : Compressed} (hi : records[i]? = some record) :
    ∃ info rest, (directory streamOffset uncompressedOffset records)[i]? = some info ∧
      info.uncompressedOffset = uncompressedOffset + readSize (records.take i) ∧
      info.uncompressedSize = record.wasRead ∧ info.compressedSize = record.wasWritten ∧
      data.drop info.compressedOffset = record.body ++ rest := by
  induction records generalizing streamOffset uncompressedOffset i with
  | nil => cases hi
  | cons first more ih =>
      have hfirst := hfits first (List.mem_cons_self ..)
      simp only [List.map_cons, List.flatten_cons] at hdata
      have hpayload := (recordBytes_append first (more.map recordBytes).flatten
        hfirst.wasWritten_lt hfirst.wasRead_lt).2.2
      have hbody : data.drop (streamOffset + 16) =
          first.body ++ (more.map recordBytes).flatten := by
        rw [← List.drop_drop, hdata, hpayload]
      cases i with
      | zero =>
          cases hi
          exact ⟨_, _, rfl, by simp [readSize], rfl, rfl, hbody⟩
      | succ i =>
          have hmore : data.drop (streamOffset + 16 + first.wasWritten) =
              (more.map recordBytes).flatten := by
            rw [← List.drop_drop, hbody, ← hfirst.body, List.drop_left' rfl]
          obtain ⟨info, rest, hinfo, hoffset, hrest⟩ :=
            ih (uncompressedOffset + first.wasRead)
              (fun other hother => hfits other (List.mem_cons_of_mem _ hother)) hmore
              (by simpa using hi)
          refine ⟨info, rest, by simpa [directory] using hinfo, ?_, hrest⟩
          rw [hoffset, List.take_succ_cons]
          simp only [readSize, List.map_cons, List.sum_cons]
          omega

/-! ## Reading -/

section

variable {codecs : Codecs} {type : CompressionType} {limit : Nat}
variable {stored : List Stored} {reader : Reader}

/-- The stream position of a chunk. -/
def chunkStart (stored : List Stored) (i : Nat) : Nat := (storedBytes (stored.take i)).length

/-- A reader that was opened on a list of chunks. -/
structure Reader.Serves (codecs : Codecs) (stored : List Stored) (reader : Reader) :
    Prop where
  chunks_length : reader.chunks.length = stored.length
  chunk : ∀ i chunk, stored[i]? = some chunk → ∃ info, reader.chunks[i]? = some info ∧
    info.uncompressedOffset = chunkStart stored i ∧
    info.uncompressedSize = chunk.chunk.length ∧
    unpackChunk codecs reader.mappedData reader.compressionAlgorithm info =
      some chunk.chunk
  total : reader.totalUncompressed = (storedBytes stored).length
  position_le : reader.position ≤ reader.totalUncompressed
  loaded : ∀ i, reader.loadedChunk = some i →
    ∃ chunk, stored[i]? = some chunk ∧ reader.chunkData = chunk.chunk

theorem chunkStart_succ {i : Nat} {chunk : Stored} (hi : stored[i]? = some chunk) :
    chunkStart stored (i + 1) = chunkStart stored i + chunk.chunk.length := by
  unfold chunkStart storedBytes
  rw [List.take_add_one, hi]
  simp

theorem chunkStart_mono {i j : Nat} (hij : i ≤ j) :
    chunkStart stored i ≤ chunkStart stored j := by
  have hfront : stored.take i <+: stored.take j := List.take_prefix_take_left hij
  obtain ⟨rest, hrest⟩ := hfront
  unfold chunkStart storedBytes
  rw [← hrest]
  simp

theorem chunkStart_length : chunkStart stored stored.length = (storedBytes stored).length := by
  simp [chunkStart]

/-- The stream from a position inside of a chunk on. -/
theorem drop_storedBytes {i position : Nat} {chunk : Stored} (hi : stored[i]? = some chunk)
    (hstart : chunkStart stored i ≤ position)
    (hend : position < chunkStart stored i + chunk.chunk.length) :
    (storedBytes stored).drop position =
      chunk.chunk.drop (position - chunkStart stored i) ++
        storedBytes (stored.drop (i + 1)) := by
  have hsplit : storedBytes stored =
      storedBytes (stored.take i) ++ (chunk.chunk ++ storedBytes (stored.drop (i + 1))) := by
    obtain ⟨hlt, hget⟩ := List.getElem?_eq_some_iff.mp hi
    conv_lhs => rw [← List.take_append_drop i stored, List.drop_eq_getElem_cons hlt, hget]
    simp [storedBytes]
  rw [hsplit, List.drop_append, List.drop_of_length_le hstart, List.nil_append,
    List.drop_append_of_le_length (by simp only [chunkStart] at *; omega)]
  rfl

/-- **The binary search** finds the chunk of a position. -/
theorem findChunk_spec (hserves : reader.Serves codecs stored) {position : Nat}
    (hposition : position < (storedBytes stored).length) :
    ∃ i chunk, findChunk reader position = some i ∧ stored[i]? = some chunk ∧
      chunkStart stored i ≤ position ∧
      position < chunkStart stored i + chunk.chunk.length := by
  have hget : ∀ i, i < stored.length →
      (reader.chunks.getD i default).uncompressedOffset = chunkStart stored i := by
    intro i hi
    obtain ⟨info, hinfo, hoffset, -⟩ :=
      hserves.chunk i stored[i] (List.getElem?_eq_getElem hi)
    rw [List.getD_eq_getElem?_getD, hinfo]
    exact hoffset
  obtain ⟨-, hlast, hfront, hback⟩ := partitionPoint_spec
    (fun middle =>
      decide ((reader.chunks.getD middle default).uncompressedOffset ≤ position))
    (Nat.le_refl (reader.chunks.length - 0)) (Nat.zero_le _)
    (fun i j hij hj hbelow => by
      rw [hserves.chunks_length] at hj
      simp only [decide_eq_true_eq, hget i (by omega), hget j hj] at hbelow ⊢
      exact (chunkStart_mono hij).trans hbelow)
  unfold findChunk
  rw [if_pos (by rw [hserves.total]; exact hposition)]
  simp only [Nat.sub_zero] at hlast hfront hback ⊢
  generalize partitionPoint _ _ _ _ = first at *
  rw [hserves.chunks_length] at hlast hback
  have hnonempty : 0 < stored.length := by
    refine List.length_pos_iff.mpr fun hnil => ?_
    simp [hnil, storedBytes] at hposition
  -- the search does not stop at the first chunk, which starts at position zero
  have hfirst : 0 < first := by
    refine Nat.pos_of_ne_zero fun hzero => ?_
    have := hback 0 (by omega) hnonempty
    rw [hget 0 hnonempty] at this
    simp [chunkStart, storedBytes] at this
  obtain ⟨chunk, hchunk⟩ : ∃ chunk, stored[first - 1]? = some chunk :=
    ⟨_, List.getElem?_eq_getElem (by omega)⟩
  have hstart : chunkStart stored (first - 1) ≤ position := by
    have := hfront (first - 1) (Nat.zero_le _) (by omega)
    rw [hget _ (by omega)] at this
    simpa using this
  have hnext : position < chunkStart stored first := by
    by_cases hinside : first < stored.length
    · have := hback first le_rfl hinside
      rw [hget _ hinside] at this
      simpa using this
    · rw [show first = stored.length by omega, chunkStart_length]
      exact hposition
  have hend : position < chunkStart stored (first - 1) + chunk.chunk.length := by
    rw [← chunkStart_succ hchunk, Nat.sub_add_cancel hfirst]
    exact hnext
  obtain ⟨info, hinfo, hoffset, hsize, -⟩ := hserves.chunk _ _ hchunk
  have hinfoD : reader.chunks.getD (first - 1) default = info := by
    rw [List.getD_eq_getElem?_getD, hinfo]
    rfl
  refine ⟨first - 1, chunk, ?_, hchunk, hstart, hend⟩
  rw [if_pos hfirst, hinfoD, if_pos (by rw [hoffset, hsize]; exact hend)]

/-- Loading a chunk, from the file or not at all. -/
theorem loadChunk_spec (hserves : reader.Serves codecs stored) {i : Nat} {chunk : Stored}
    (hi : stored[i]? = some chunk) :
    ∃ next, loadChunk codecs reader i = some next ∧ next.Serves codecs stored ∧
      next.chunkData = chunk.chunk ∧ next.position = reader.position ∧
      next.chunks = reader.chunks := by
  unfold loadChunk
  by_cases hloaded : reader.loadedChunk = some i
  · obtain ⟨kept, hkept, hdata⟩ := hserves.loaded i hloaded
    rw [hi] at hkept
    cases hkept
    exact ⟨reader, by rw [if_pos hloaded], hserves, hdata, rfl, rfl⟩
  · obtain ⟨info, hinfo, -, -, hunpack⟩ := hserves.chunk i chunk hi
    rw [if_neg hloaded]
    simp only [hinfo, hunpack]
    refine ⟨_, rfl, ⟨hserves.chunks_length, hserves.chunk, hserves.total,
      hserves.position_le, fun j hj => ?_⟩, rfl, rfl, rfl⟩
    cases hj
    exact ⟨chunk, hi, rfl⟩

/-- The reader at another position of the stream. -/
theorem Reader.Serves.moveTo (hserves : reader.Serves codecs stored) (position : Nat)
    (hposition : position ≤ (storedBytes stored).length) :
    Reader.Serves codecs stored { reader with position := position } :=
  ⟨hserves.chunks_length, hserves.chunk, hserves.total, by rw [hserves.total]; exact hposition,
    hserves.loaded⟩

/-- **The copy loop.** -/
theorem copyBytes_spec (hserves : reader.Serves codecs stored) {rounds byteCount : Nat}
    (hrounds : byteCount ≤ rounds)
    (hroom : reader.position + byteCount ≤ (storedBytes stored).length) :
    ∃ next, copyBytes codecs rounds reader byteCount =
        some (next, ((storedBytes stored).drop reader.position).take byteCount) ∧
      next.Serves codecs stored ∧ next.position = reader.position + byteCount := by
  induction rounds generalizing reader byteCount with
  | zero =>
      obtain rfl : byteCount = 0 := by omega
      exact ⟨reader, by simp [copyBytes], hserves, rfl⟩
  | succ rounds ih =>
      unfold copyBytes
      by_cases hcount : byteCount > 0
      · obtain ⟨i, chunk, hfind, hi, hstart, hend⟩ :=
          findChunk_spec hserves
            (show reader.position < (storedBytes stored).length by omega)
        obtain ⟨loaded, hload, hloaded, hdata, hposition, hchunks⟩ :=
          loadChunk_spec hserves hi
        obtain ⟨info, hinfo, hoffset, hsize, -⟩ := hserves.chunk i chunk hi
        have hinfoD : loaded.chunks.getD i default = info := by
          rw [hchunks, List.getD_eq_getElem?_getD, hinfo]
          rfl
        rw [if_pos hcount]
        simp only [hfind, hload, hinfoD, hoffset, hsize, hposition]
        have hdrop := drop_storedBytes hi hstart hend
        have hoffset : reader.position - chunkStart stored i < chunk.chunk.length := by
          omega
        generalize reader.position - chunkStart stored i = offset at *
        have hcopy : min byteCount (chunk.chunk.length - offset) ≤ byteCount ∧
            min byteCount (chunk.chunk.length - offset) ≤ chunk.chunk.length - offset :=
          ⟨Nat.min_le_left .., Nat.min_le_right ..⟩
        have hpositive : 0 < min byteCount (chunk.chunk.length - offset) := by
          omega
        generalize min byteCount (chunk.chunk.length - offset) = copySize at *
        obtain ⟨next, hnext, hserved, hfinal⟩ :=
          ih (hloaded.moveTo (reader.position + copySize) (by omega))
            (show byteCount - copySize ≤ rounds by omega) (by simp only; omega)
        simp only at hnext hfinal
        rw [hnext]
        refine ⟨next, ?_, hserved, by omega⟩
        -- the copied bytes and the rest of the range are the range
        have hfront : ((storedBytes stored).drop reader.position).take copySize =
            (chunk.chunk.drop offset).take copySize := by
          rw [hdrop, List.take_append_of_le_length]
          simpa using hcopy.2
        simp only [hdata, Option.some.injEq, Prod.mk.injEq, true_and]
        rw [← hfront, ← List.drop_drop, ← List.take_add, Nat.add_sub_cancel' hcopy.1]
      · obtain rfl : byteCount = 0 := by omega
        exact ⟨reader, by simp, hserves, rfl⟩

/-- A read inside of the stream. -/
theorem readBytes_spec (hserves : reader.Serves codecs stored) {byteCount : Nat}
    (hroom : reader.position + byteCount ≤ (storedBytes stored).length) :
    ∃ next, readBytes codecs reader byteCount =
        some (next, ((storedBytes stored).drop reader.position).take byteCount) ∧
      next.Serves codecs stored ∧ next.position = reader.position + byteCount := by
  have htotal := hserves.total
  unfold readBytes Reader.remaining
  rw [if_neg (by omega)]
  exact copyBytes_spec hserves le_rfl hroom

/-- **Every sequence of calls** is answered from the stream. -/
theorem answers_eq_slices (hserves : reader.Serves codecs stored) (calls : List Call) :
    answers codecs reader calls = slices (storedBytes stored) reader.position calls := by
  have htotal := hserves.total
  induction calls generalizing reader with
  | nil => rfl
  | cons call calls ih =>
      cases call with
      | seek position =>
          unfold answers slices seek
          by_cases hinside : position ≤ (storedBytes stored).length
          · rw [if_neg (by omega), if_pos hinside]
            have hmoved := hserves.moveTo position hinside
            exact ih hmoved hmoved.total
          · rw [if_pos (by omega), if_neg hinside]
      | readBytes byteCount =>
          have hposition := hserves.position_le
          unfold answers slices
          by_cases hinside : reader.position + byteCount ≤ (storedBytes stored).length
          · obtain ⟨next, hread, hnext, hmoved⟩ := readBytes_spec hserves hinside
            rw [if_pos hinside, hread]
            simp only
            rw [ih hnext hnext.total, hmoved]
          · unfold readBytes Reader.remaining
            rw [if_pos (by omega), if_neg hinside]

/-! ## Opening a file -/

/-- Opening a file of records: it must hold some, and none of them may be
empty. -/
theorem initializeReader_fileBytes (type : CompressionType) {records : List Compressed}
    (hfits : ∀ record ∈ records, Fits record) (htotal : readSize records < 2 ^ 64) :
    initializeReader (fileBytes type records) =
      if records = [] ∨ records.any isEmptyRecord then none
      else some
        { mappedData := fileBytes type records
          chunks := directory 39 0 records
          totalUncompressed := readSize records
          compressionAlgorithm := type
          streamVersion := 3 } := by
  obtain ⟨hlength, hmagic, hversion, hcode, hdrop⟩ := fileBytes_header type records
  have hrounds : records.length ≤ (fileBytes type records).length := by
    rw [hlength]
    clear hfits htotal hlength hmagic hversion hcode hdrop
    induction records with
    | nil => simp
    | cons record rest ih =>
        simp only [List.map_cons, List.flatten_cons, List.length_append, List.length_cons,
          recordBytes_length]
        omega
  have hscan := scanChunks_records hfits (by omega) hdrop
    (show 0 + readSize records < 2 ^ 64 by omega) hrounds
  unfold initializeReader streamHeader
  rw [if_neg (by omega), if_pos hmagic, if_neg (by omega), hversion, hcode]
  simp only [ofCode_code, hscan, Nat.zero_add]
  by_cases hany : records.any isEmptyRecord = true
  · simp [hany]
  · cases records with
    | nil => simp [directory]
    | cons record rest =>
        rw [if_neg hany, if_neg (by simpa using hany)]
        rfl

/-- The contents of a chunk, from the entry of its record. -/
theorem unpackChunk_record (hinverse : codecs.Inverse type limit)
    {data rest : List UInt8} {info : ChunkInfo} {chunk : Stored}
    (hlimit : chunk.chunk.length ≤ limit)
    (hread : info.uncompressedSize = (chunk.record codecs type).wasRead)
    (hwritten : info.compressedSize = (chunk.record codecs type).wasWritten)
    (hsource : data.drop info.compressedOffset = (chunk.record codecs type).body ++ rest) :
    unpackChunk codecs data type info = some chunk.chunk := by
  have hlt := hinverse.limit_lt
  unfold unpackChunk
  simp only [hsource, hread, hwritten, Stored.record]
  cases type with
  | uncompressed =>
      simp only [compressChunk, List.append_assoc]
      rw [if_neg (by simp; omega), List.take_left' rfl]
  | density =>
      obtain ⟨read, hbound, hdecompress⟩ :=
        (hinverse.density rfl).inverse chunk.chunk chunk.chunk_ne_nil hlimit
      simp only [compressChunk, (hinverse.density rfl).read _ hlimit]
      rw [List.take_left' rfl, hdecompress]
      simp only
      rw [if_neg (by omega)]
  | lz4 =>
      have hlz4 := hinverse.lz4 rfl
      have hsize := (hlz4.size _ hlimit).1
      have hint := hlz4.limit_lt
      have hsmall : ¬((compressChunk codecs .lz4 chunk.stray chunk.chunk).wasWritten >
            2 ^ 31 - 1 ∨
          (compressChunk codecs .lz4 chunk.stray chunk.chunk).wasRead > 2 ^ 31 - 1) := by
        simp only [compressChunk]
        omega
      rw [if_neg hsmall]
      simp only [compressChunk]
      rw [List.take_left' rfl, hlz4.inverse _ chunk.chunk_ne_nil hlimit]
      simp

/-- The record of a non-empty chunk is not an empty one. -/
theorem record_fits (hinverse : codecs.Inverse type limit)
    {stray chunk : List UInt8} (hstray : stray.length = 16)
    (hlimit : chunk.length ≤ limit) :
    Fits (compressChunk codecs type stray chunk) ∧
      (compressChunk codecs type stray chunk).wasRead = chunk.length ∧
      (isEmptyRecord (compressChunk codecs type stray chunk) = false ↔ chunk ≠ []) := by
  obtain ⟨hbody, hread, hwritten64, hread64, hpositive⟩ :=
    compressChunk_sizes hinverse hstray hlimit
  refine ⟨⟨hbody, hwritten64, hread64⟩, hread, ?_⟩
  simp only [isEmptyRecord, decide_eq_false_iff_not, hread, List.length_eq_zero_iff, not_or]
  exact ⟨fun h => h.2, fun h => ⟨(hpositive h).ne', h⟩⟩

/-- **Opening a file of chunks.** -/
theorem initializeReader_serves (hinverse : codecs.Inverse type limit)
    (hstored : stored ≠ []) (hlimit : ∀ chunk ∈ stored, chunk.chunk.length ≤ limit)
    (htotal : (storedBytes stored).length < 2 ^ 64) :
    ∃ reader, initializeReader (fileBytes type (stored.map (Stored.record codecs type))) =
        some reader ∧
      reader.Serves codecs stored ∧ reader.position = 0 := by
  have hrecord : ∀ chunk ∈ stored, Fits (chunk.record codecs type) ∧
      (chunk.record codecs type).wasRead = chunk.chunk.length ∧
      (isEmptyRecord (chunk.record codecs type) = false ↔ chunk.chunk ≠ []) :=
    fun chunk hchunk => record_fits hinverse chunk.stray_length (hlimit chunk hchunk)
  have hsize : ∀ part : List Stored, (∀ chunk ∈ part, chunk ∈ stored) →
      readSize (part.map (Stored.record codecs type)) = (storedBytes part).length := by
    intro part hpart
    unfold readSize storedBytes
    rw [List.map_map, List.length_flatten, List.map_map]
    congr 1
    exact List.map_congr_left fun chunk hchunk => (hrecord chunk (hpart chunk hchunk)).2.1
  have hfits : ∀ record ∈ stored.map (Stored.record codecs type), Fits record := by
    intro record hmem
    obtain ⟨chunk, hchunk, rfl⟩ := List.mem_map.mp hmem
    exact (hrecord chunk hchunk).1
  have hopen := initializeReader_fileBytes type hfits
    (by rw [hsize stored fun _ h => h]; exact htotal)
  rw [if_neg, hsize stored fun _ h => h] at hopen
  · refine ⟨_, hopen, ⟨?_, ?_, rfl, Nat.zero_le _, fun i hi => by cases hi⟩, rfl⟩
    · simp [directory_length]
    · intro i chunk hi
      have hmem := List.mem_of_getElem? hi
      obtain ⟨info, rest, hinfo, hoffset, hread, hwritten, hsource⟩ :=
        directory_getElem? 0 hfits
          (fileBytes_header type _).2.2.2.2
          (show _ = some (chunk.record codecs type) by rw [List.getElem?_map, hi]; rfl)
      refine ⟨info, hinfo, ?_, hread.trans (hrecord chunk hmem).2.1,
        unpackChunk_record hinverse (hlimit chunk hmem) hread hwritten hsource⟩
      rw [hoffset, ← List.map_take, hsize _ fun _ h => List.mem_of_mem_take h, Nat.zero_add]
      rfl
  · simp only [List.map_eq_nil_iff, hstored, false_or, Bool.not_eq_true, List.any_eq_false]
    intro record hmem
    obtain ⟨chunk, hchunk, rfl⟩ := List.mem_map.mp hmem
    simpa using (hrecord chunk hchunk).2.2.mpr chunk.chunk_ne_nil

/-! ## Files of a writer -/

/-- The random access reader accepts the file, knows its size, and answers every
sequence of calls as the stream does that the streaming reader delivers from
it. -/
def AgreesWithStreaming (codecs : Codecs) (file : List UInt8) (uncompressedSize : Nat) :
    Prop :=
  ∃ reader streaming final k,
    initializeReader file = some reader ∧
    Container.init file uncompressedSize uncompressedSize = some streaming ∧
    decompressChunks codecs streaming k = some final ∧ final.totalLeft = 0 ∧
    reader.totalUncompressed = streaming.totalUncompressed ∧
    ∀ calls, answers codecs reader calls = slices final.output 0 calls

/-- Both readers on the file of a list of chunks. -/
theorem agreesWithStreaming_stored (hinverse : codecs.Inverse type limit)
    (hstored : stored ≠ [])
    (hlimit : ∀ chunk ∈ stored, chunk.chunk.length ≤ limit)
    (htotal : (storedBytes stored).length < 2 ^ 64)
    (hfile : (fileBytes type (stored.map (Stored.record codecs type))).length < 2 ^ 64) :
    AgreesWithStreaming codecs (fileBytes type (stored.map (Stored.record codecs type)))
      (storedBytes stored).length := by
  obtain ⟨reader, hopen, hserves, hposition⟩ :=
    initializeReader_serves hinverse hstored hlimit htotal
  obtain ⟨streaming, hinit, hbefore, hempty, huncompressed⟩ :=
    init_stored codecs type hstored hfile (storedBytes stored).length
  obtain ⟨final, hfinal, hafter, houtput⟩ :=
    hbefore.decompressChunks hinverse hlimit le_rfl
  refine ⟨reader, streaming, final, stored.length, hopen, hinit, hfinal,
    hafter.totalLeft_eq_zero_iff.mpr (by simp), ?_, fun calls => ?_⟩
  · rw [hserves.total, huncompressed]
  · rw [answers_eq_slices hserves, hposition, houtput, hempty, List.take_length,
      List.nil_append]

/-- A file with an empty chunk, or with none, is refused. -/
theorem not_agreesWithStreaming {records : List Compressed} (type : CompressionType)
    (hfits : ∀ record ∈ records, Fits record) (htotal : readSize records < 2 ^ 64)
    (hempty : records = [] ∨ records.any isEmptyRecord = true) (uncompressedSize : Nat) :
    ¬AgreesWithStreaming codecs (fileBytes type records) uncompressedSize := by
  rintro ⟨reader, streaming, final, k, hopen, -⟩
  rw [initializeReader_fileBytes type hfits htotal, if_pos hempty] at hopen
  cases hopen

/-- The chunks of a file that is accepted: there are some, and none of them is empty. -/
theorem hasBytes_of_agreesWithStreaming (hinverse : codecs.Inverse type limit)
    {stray : Chunk → List UInt8} (hstray : ∀ chunk, (stray chunk).length = 16)
    {packed : List Chunk} (hlimit : ∀ chunk ∈ packed, chunk.bytes.length ≤ limit)
    (hstream : (payload packed).length < 2 ^ 64) {uncompressedSize : Nat}
    (hagrees : AgreesWithStreaming codecs
      (fileBytes type (packed.map (packer codecs type stray))) uncompressedSize) :
    packed ≠ [] ∧ ∀ chunk ∈ packed, hasBytes chunk = true := by
  have hfits := fun chunk hchunk =>
    record_fits hinverse (hstray chunk) (hlimit chunk hchunk)
  have hsize : readSize (packed.map (packer codecs type stray)) =
      (payload packed).length := by
    unfold readSize
    rw [payload_length, List.map_map]
    congr 1
    exact List.map_congr_left fun chunk hchunk => (hfits chunk hchunk).2.1
  have haccepted : ¬(packed.map (packer codecs type stray) = [] ∨
      (packed.map (packer codecs type stray)).any isEmptyRecord = true) := by
    intro hempty
    refine not_agreesWithStreaming type (fun record hmem => ?_) (by omega) hempty _ hagrees
    obtain ⟨chunk, hchunk, rfl⟩ := List.mem_map.mp hmem
    exact (hfits chunk hchunk).1
  rw [not_or, List.map_eq_nil_iff, Bool.not_eq_true, List.any_eq_false] at haccepted
  refine ⟨haccepted.1, fun chunk hchunk => ?_⟩
  have hrecord := haccepted.2 _ (List.mem_map_of_mem hchunk)
  have hbytes := (hfits chunk hchunk).2.2.mp (by simpa [packer] using hrecord)
  simpa [hasBytes, List.length_pos_iff] using hbytes

end

/-- **Random access and streaming.**  For any setting of the mode flags, the file
that `finalize` leaves is read alike by both readers exactly when something was
written and no empty chunk was compressed on the spot. -/
theorem random_access_agrees_iff (codecs : Codecs) (type : CompressionType)
    (limit : Nat) (hinverse : codecs.Inverse type limit)
    (stray : Chunk → List UInt8) (hstray : ∀ chunk, (stray chunk).length = 16)
    (chunkSize : Nat) (multithreadedCompress multithreadedWrite : Bool)
    (labels : List Label) (s : State) (hchunkSize : chunkSize ≤ limit)
    (hblocks : ∀ op ∈ opsOf labels, op.size ≤ limit)
    (hrun : exec (step (packer codecs type stray))
      (State.init chunkSize multithreadedCompress multithreadedWrite) labels = some s)
    (hphase : s.phase = .finished)
    (hfile : (fileBytes type s.file).length < 2 ^ 64)
    (hstream : (streamOf (opsOf labels)).length < 2 ^ 64) :
    AgreesWithStreaming codecs (fileBytes type s.file) s.writer.uncompressedBytes ↔
      streamOf (opsOf labels) ≠ [] ∧
        Along (step (packer codecs type stray)) (fun s label => packsEmpty s label = false)
          (State.init chunkSize multithreadedCompress multithreadedWrite) labels := by
  have halong : Along (step (packer codecs type stray))
      (fun s label => False → splicesAside s label = false)
      (State.init chunkSize multithreadedCompress multithreadedWrite) labels :=
    (along_true _ _ labels).mono fun _ _ _ h => h.elim
  have hinv := run_inv (packer codecs type stray) False halong hrun
  obtain ⟨hheld, -, -, closed, packed, hproduce, hbalance, -, hrecords, -, -, hclean⟩ :=
    hinv.finished hphase
  -- the chunks of the file hold as many bytes as the stream
  have hpayload : (payload packed).length = (streamOf (opsOf labels)).length := by
    rw [← produce_stream hproduce hheld, ← payload_filter packed,
      ← payload_filter (closed ++ [s.writer.chunk]), payload_length, payload_length]
    exact (hbalance.map _).sum_eq
  have hlimit : ∀ chunk ∈ packed, chunk.bytes.length ≤ limit := by
    intro chunk hchunk
    by_cases hbytes : hasBytes chunk = true
    · have hmem := hbalance.mem_iff.mp (List.mem_filter.mpr ⟨hchunk, hbytes⟩)
      exact produce_length_le hchunkSize hblocks hproduce chunk (List.mem_of_mem_filter hmem)
    · have : chunk.bytes = [] := by simpa [hasBytes] using hbytes
      simp [this]
  rw [produce_uncompressedBytes hproduce, ← hpayload, hrecords, ← hclean]
  rw [← hpayload] at hstream
  rw [hrecords] at hfile
  constructor
  · intro hagrees
    obtain ⟨hsome, hall⟩ := hasBytes_of_agreesWithStreaming hinverse hstray hlimit hstream hagrees
    refine ⟨fun hnil => ?_, hall⟩
    -- a stream of no bytes has no chunk with bytes
    rw [hnil] at hpayload
    cases packed with
    | nil => exact hsome rfl
    | cons first rest =>
        have hfirst := hall first (List.mem_cons_self ..)
        simp only [hasBytes, decide_eq_true_eq] at hfirst
        simp only [payload, List.map_cons, List.flatten_cons, List.length_append,
          List.length_nil] at hpayload
        omega
  · rintro ⟨hwritten, hall⟩
    obtain ⟨stored, hstored, hbytes, hsmall⟩ :=
      exists_stored codecs type hstray hall hlimit
    rw [hstored] at hfile ⊢
    rw [← hbytes] at hstream ⊢
    refine agreesWithStreaming_stored hinverse (fun hnil => hwritten ?_) hsmall hstream
      hfile
    rw [← hbytes, hnil] at hpayload
    exact List.length_eq_zero_iff.mp hpayload.symm

/-- LZ4 streams; the buffers behind the chunks are not read. -/
def literalPacker : Chunk → Compressed :=
  packer literalCodecs .lz4 fun _ => List.replicate 16 0

theorem random_access_agrees_iff_synchronousRun :
    ∃ s, exec (step literalPacker) (State.init 6 false false) synchronousRun = some s ∧
      AgreesWithStreaming literalCodecs (fileBytes .lz4 s.file) 10 := by
  have hrun : (exec (step literalPacker) (State.init 6 false false)
      synchronousRun).isSome = true := by
    decide
  refine ⟨_, (Option.some_get hrun).symm, ?_⟩
  exact (random_access_agrees_iff literalCodecs .lz4 12 literalCodecs_inverse
    (fun _ => List.replicate 16 0) (fun _ => by simp) 6 false false synchronousRun _
    (by decide) (by decide) (Option.some_get hrun).symm (by decide +revert)
    (by decide +revert) (by decide)).mpr ⟨by decide, by decide⟩

/-- A block that is larger than the chunk size, in front of everything else: the
empty first chunk is closed and, without the compressor thread, written. -/
def largeBlockRun : List Label :=
  [.op (.block [1, 2, 3]), .finalize, .feedDone, .compressorExit, .joinCompressor,
    .serializerExit, .joinSerializer]

theorem random_access_refuses_empty_chunk :
    ∃ s streaming final, exec (step literalPacker) (State.init 2 false false) largeBlockRun =
        some s ∧ s.phase = .finished ∧
      Container.init (fileBytes .lz4 s.file) 3 3 = some streaming ∧
      decompressChunks literalCodecs streaming 2 = some final ∧
      final.output = [1, 2, 3] ∧ final.totalLeft = 0 ∧
      ¬AgreesWithStreaming literalCodecs (fileBytes .lz4 s.file) 3 := by
  refine ⟨_, _, _, rfl, rfl, rfl, rfl, by decide, by decide, ?_⟩
  rintro ⟨reader, streaming, final, k, hopen, -⟩
  have hrefused : initializeReader (fileBytes .lz4
      [⟨1, 0, [0]⟩, ⟨4, 3, [48, 1, 2, 3]⟩]) = none := by
    decide
  exact absurd (hopen.symm.trans hrefused) (by simp)

end RandomAccess
end Lavatube
