import Lavatube.Lib.LittleEndian
import Lavatube.Lib.Transition
import Lavatube.Pipeline

/-!
# The stream container

A stream file is a header of 39 bytes followed by one record for each chunk: the
compressed size, the uncompressed size and the compressed bytes.  This module has
both ends, `file_writer::set` with `compress_chunk`, and the header detection of
`file_reader::init` with `decompress_chunk`.

The codecs are parameters.  A record of the uncompressed type counts its own
header in the stored compressed size and is written out 16 bytes longer than its
buffer; what follows the buffer in memory is `stray`.

* `decompressChunk_record` — reading back one record.
* `init_fileBytes` — opening a file.
* `container_round_trip` — reading back a whole file.
-/

namespace Lavatube
namespace Container

open FileWriter Pipeline Transition

/-- `lavatube_compression_type`. -/
inductive CompressionType where
  | uncompressed
  | density
  | lz4
deriving DecidableEq, Repr

/-- The value stored in the file header. -/
def CompressionType.code : CompressionType → UInt8
  | .uncompressed => 0
  | .density => 1
  | .lz4 => 2

/-- The types a reader accepts. -/
def CompressionType.ofCode (code : UInt8) : Option CompressionType :=
  if code = 0 then some .uncompressed
  else if code = 1 then some .density
  else if code = 2 then some .lz4
  else none

@[simp] theorem ofCode_code (type : CompressionType) :
    CompressionType.ofCode type.code = some type := by
  cases type <;> rfl

/-- The compression libraries: `density_compress` (output and `bytesRead`),
`density_decompress` for a given output capacity (output and `bytesRead`, or a
failure), `density_decompress_safe_size`, `LZ4_compress_fast` and
`LZ4_decompress_safe` for a given output capacity. -/
structure Codecs where
  densityCompress : List UInt8 → List UInt8 × Nat
  densityDecompress : List UInt8 → Nat → Option (List UInt8 × Nat)
  densitySafeSize : Nat → Nat
  lz4Compress : List UInt8 → List UInt8
  lz4Decompress : List UInt8 → Nat → Option (List UInt8)

/-- What is relied on of density for input up to `limit` bytes: compression takes
all of it and writes something for it, decompression inverts it on non-empty
input, and needs a constant slack behind its output. -/
structure Codecs.DensityInverse (codecs : Codecs) (limit : Nat) : Prop where
  read : ∀ chunk, chunk.length ≤ limit → (codecs.densityCompress chunk).2 = chunk.length
  size : ∀ chunk, chunk.length ≤ limit →
    (codecs.densityCompress chunk).1.length < 2 ^ 64 ∧
      (chunk ≠ [] → 0 < (codecs.densityCompress chunk).1.length)
  inverse : ∀ chunk, chunk ≠ [] → chunk.length ≤ limit →
    ∃ read, read ≤ (codecs.densityCompress chunk).1.length ∧
      codecs.densityDecompress (codecs.densityCompress chunk).1
        (codecs.densitySafeSize chunk.length) = some (chunk, read)
  slack : ∃ slack, ∀ size, codecs.densitySafeSize size = size + slack

/-- What is relied on of LZ4, which counts in `int`. -/
structure Codecs.Lz4Inverse (codecs : Codecs) (limit : Nat) : Prop where
  limit_lt : limit < 2 ^ 31
  size : ∀ chunk, chunk.length ≤ limit →
    (codecs.lz4Compress chunk).length < 2 ^ 31 ∧
      (chunk ≠ [] → 0 < (codecs.lz4Compress chunk).length)
  inverse : ∀ chunk, chunk ≠ [] → chunk.length ≤ limit →
    codecs.lz4Decompress (codecs.lz4Compress chunk) chunk.length = some chunk

/-- What is relied on of the codec in use, for chunks up to `limit` bytes. -/
structure Codecs.Inverse (codecs : Codecs) (type : CompressionType) (limit : Nat) :
    Prop where
  limit_lt : limit + 16 < 2 ^ 64
  density : type = .density → codecs.DensityInverse limit
  lz4 : type = .lz4 → codecs.Lz4Inverse limit

/-- `compress_chunk`; `stray` are the 16 bytes behind the buffer of an
uncompressed record. -/
def compressChunk (codecs : Codecs) (type : CompressionType) (stray : List UInt8)
    (chunk : List UInt8) : Compressed :=
  match type with
  | .density =>
      let result := codecs.densityCompress chunk
      ⟨result.1.length, result.2, result.1⟩
  | .lz4 =>
      let result := codecs.lz4Compress chunk
      ⟨result.length, chunk.length, result⟩
  | .uncompressed => ⟨chunk.length + 16, chunk.length, chunk ++ stray⟩

/-- The bytes of a compressed buffer. -/
def recordBytes (record : Compressed) : List UInt8 :=
  LittleEndian.encode 8 record.wasWritten ++ LittleEndian.encode 8 record.wasRead ++
    record.body

/-- The magic word `LAVABIN`. -/
def magicWord : List UInt8 := [76, 65, 86, 65, 66, 73, 78]

/-- The header written by `file_writer::set`: the magic word, the file version,
the compression type and reserved space. -/
def fileHeader (type : CompressionType) : List UInt8 :=
  magicWord ++ [3, type.code] ++ List.replicate 30 0

/-- A file as `file_writer` leaves it. -/
def fileBytes (type : CompressionType) (records : List Compressed) : List UInt8 :=
  fileHeader type ++ (records.map recordBytes).flatten

/-- The members of `file_reader` that opening and decompressing use.  `input` are
the bytes from `compressed_data` on, `output` the bytes of `uncompressed_data` up
to `write_position`. -/
structure Reader where
  input : List UInt8
  totalLeft : Nat
  algorithm : CompressionType
  version : UInt8 := 0
  totalUncompressed : Nat
  uncompressedWanted : Nat
  output : List UInt8 := []
  lastChunkSize : Nat := 0
  doneDecompressing : Bool := false
deriving DecidableEq, Repr

/-- `write_position`. -/
def Reader.writePosition (reader : Reader) : Nat := reader.output.length

/-- `file_reader::init` (and `init_mapped`); `none` is an abort or a failed
assertion.  A file without the magic word is an old density stream. -/
def init (file : List UInt8) (uncompressedSize uncompressedTarget : Nat) :
    Option Reader :=
  if file.length = 0 ∨ uncompressedSize = 0 then
    none
  else if file.take 7 = magicWord then
    if 39 ≤ file.length then
      match CompressionType.ofCode (file.getD 8 0) with
      | none => none
      | some algorithm =>
          some
            { input := file.drop 39
              totalLeft := file.length - 39
              algorithm := algorithm
              version := file.getD 7 0
              totalUncompressed := uncompressedSize
              uncompressedWanted := uncompressedTarget }
    else
      none
  else
    some
      { input := file
        totalLeft := file.length
        algorithm := .density
        totalUncompressed := uncompressedSize
        uncompressedWanted := uncompressedTarget }

/-- What `decompress_chunk` puts at the destination; `none` is an abort or a
failed assertion.  The buffer behind what density writes is still zero. -/
def decompressBody (codecs : Codecs) (reader : Reader) (body : List UInt8)
    (compressedSize uncompressedSize : Nat) : Option (List UInt8) :=
  match reader.algorithm with
  | .density =>
      let estimated := codecs.densitySafeSize uncompressedSize
      if reader.writePosition + estimated ≤
          codecs.densitySafeSize reader.totalUncompressed then
        match codecs.densityDecompress (body.take compressedSize) estimated with
        | none => none
        | some (bytes, _) => some (bytes.takeD uncompressedSize 0)
      else
        none
  | .lz4 =>
      match codecs.lz4Decompress (body.take compressedSize) uncompressedSize with
      | none => none
      | some bytes => if bytes.length = uncompressedSize then some bytes else none
  | .uncompressed =>
      if uncompressedSize ≤ body.length then some (body.take uncompressedSize) else none

/-- `decompress_chunk`. -/
def decompressChunk (codecs : Codecs) (reader : Reader) : Option Reader :=
  if 16 ≤ reader.input.length then
    let compressedSize := LittleEndian.decode (reader.input.take 8)
    let uncompressedSize := LittleEndian.decode ((reader.input.drop 8).take 8)
    let body := reader.input.drop 16
    if compressedSize ≤ reader.totalLeft ∧
        reader.writePosition + uncompressedSize ≤ reader.totalUncompressed then
      match decompressBody codecs reader body compressedSize uncompressedSize with
      | none => none
      | some bytes =>
          let totalLeft :=
            (reader.totalLeft + 2 ^ 64 - (compressedSize + 16)) % 2 ^ 64
          let output := reader.output ++ bytes
          some { reader with
            input := body.drop compressedSize
            totalLeft := totalLeft
            output := output
            lastChunkSize := uncompressedSize
            doneDecompressing := reader.doneDecompressing ||
              decide (totalLeft = 0 ∨ output.length ≥ reader.uncompressedWanted) }
    else
      none
  else
    none

/-! ## Reading back a record -/

section

variable {codecs : Codecs} {type : CompressionType} {limit : Nat}

/-- The stored sizes of a record and the length of its body agree. -/
theorem compressChunk_sizes (hinverse : codecs.Inverse type limit)
    {stray chunk : List UInt8} (hstray : stray.length = 16)
    (hlimit : chunk.length ≤ limit) :
    let record := compressChunk codecs type stray chunk
    record.body.length = record.wasWritten ∧ record.wasRead = chunk.length ∧
      record.wasWritten < 2 ^ 64 ∧ record.wasRead < 2 ^ 64 ∧
      (chunk ≠ [] → 0 < record.wasWritten) := by
  have hlt := hinverse.limit_lt
  cases type with
  | uncompressed =>
      refine ⟨by simp [compressChunk, hstray], rfl, ?_, ?_, fun _ => ?_⟩
      all_goals
        simp only [compressChunk]
        omega
  | density =>
      have hread := (hinverse.density rfl).read chunk hlimit
      have hsize := (hinverse.density rfl).size chunk hlimit
      refine ⟨rfl, hread, hsize.1, ?_, hsize.2⟩
      simp only [compressChunk, hread]
      omega
  | lz4 =>
      have hsize := (hinverse.lz4 rfl).size chunk hlimit
      refine ⟨rfl, rfl, ?_, ?_, hsize.2⟩
      all_goals
        simp only [compressChunk]
        omega

theorem recordBytes_length (record : Compressed) :
    (recordBytes record).length = 16 + record.body.length := by
  simp only [recordBytes, List.length_append, LittleEndian.encode_length]

/-- The two sizes and the rest behind them. -/
theorem recordBytes_append (record : Compressed) (rest : List UInt8)
    (hwritten : record.wasWritten < 2 ^ 64) (hread : record.wasRead < 2 ^ 64) :
    LittleEndian.decode ((recordBytes record ++ rest).take 8) = record.wasWritten ∧
      LittleEndian.decode (((recordBytes record ++ rest).drop 8).take 8) =
        record.wasRead ∧
      (recordBytes record ++ rest).drop 16 = record.body ++ rest := by
  have hfirst : (LittleEndian.encode 8 record.wasWritten).length = 8 := by simp
  have hsecond : (LittleEndian.encode 8 record.wasRead).length = 8 := by simp
  unfold recordBytes
  simp only [List.append_assoc]
  refine ⟨?_, ?_, ?_⟩
  · rw [List.take_left' hfirst, LittleEndian.decode_encode (by simpa using hwritten)]
  · rw [List.drop_left' hfirst, List.take_left' hsecond,
      LittleEndian.decode_encode (by simpa using hread)]
  · rw [show (16 : Nat) = 8 + 8 by rfl, ← List.drop_drop, List.drop_left' hfirst,
      List.drop_left' hsecond]

/-- The destination bytes of a record. -/
theorem decompressBody_record (hinverse : codecs.Inverse type limit) {reader : Reader}
    (halgorithm : reader.algorithm = type) (stray : List UInt8) {chunk : List UInt8}
    (hchunk : chunk ≠ []) (hlimit : chunk.length ≤ limit)
    (hroom : reader.writePosition + chunk.length ≤ reader.totalUncompressed)
    (rest : List UInt8) :
    let record := compressChunk codecs type stray chunk
    decompressBody codecs reader (record.body ++ rest) record.wasWritten chunk.length =
      some chunk := by
  unfold decompressBody
  rw [halgorithm]
  cases type with
  | uncompressed =>
      simp only [compressChunk, List.append_assoc]
      rw [if_pos (by simp), List.take_left' rfl]
  | density =>
      have hdensity := hinverse.density rfl
      obtain ⟨slack, hslack⟩ := hdensity.slack
      obtain ⟨read, -, hdecompress⟩ := hdensity.inverse chunk hchunk hlimit
      simp only [compressChunk]
      rw [if_pos (by rw [hslack, hslack]; omega), List.take_left' rfl, hdecompress]
      simp [List.takeD_eq_take]
  | lz4 =>
      simp only [compressChunk]
      rw [List.take_left' rfl, (hinverse.lz4 rfl).inverse chunk hchunk hlimit]
      simp

/-- **Reading back one record.** -/
theorem decompressChunk_record (hinverse : codecs.Inverse type limit) {reader : Reader}
    (halgorithm : reader.algorithm = type) {stray chunk rest : List UInt8}
    (hstray : stray.length = 16) (hchunk : chunk ≠ []) (hlimit : chunk.length ≤ limit)
    (hroom : reader.writePosition + chunk.length ≤ reader.totalUncompressed)
    (hinput : reader.input = recordBytes (compressChunk codecs type stray chunk) ++ rest)
    (hleft : reader.totalLeft = reader.input.length)
    (hfile : reader.input.length < 2 ^ 64) :
    ∃ next, decompressChunk codecs reader = some next ∧
      next.input = rest ∧ next.totalLeft = rest.length ∧
      next.algorithm = type ∧
      next.totalUncompressed = reader.totalUncompressed ∧
      next.output = reader.output ++ chunk := by
  obtain ⟨hbody, hread, hwritten64, hread64, -⟩ :=
    compressChunk_sizes hinverse hstray hlimit
  have hdestination :=
    decompressBody_record hinverse halgorithm stray hchunk hlimit hroom rest
  obtain ⟨htake, hsecond, hdrop⟩ := recordBytes_append
    (compressChunk codecs type stray chunk) rest hwritten64 hread64
  simp only at hbody hread hdestination
  -- from here on only the sizes of the record matter
  generalize compressChunk codecs type stray chunk = record at *
  have hlength : reader.input.length = 16 + record.body.length + rest.length := by
    rw [hinput, List.length_append, recordBytes_length]
  unfold decompressChunk
  rw [if_pos (by omega)]
  simp only [hinput, htake, hsecond, hdrop, hread]
  rw [if_pos (by omega), hdestination]
  refine ⟨_, rfl, ?_, ?_, halgorithm, rfl, rfl⟩
  · simp only
    rw [← hbody, List.drop_left' rfl]
  · simp only
    rw [show reader.totalLeft + 2 ^ 64 - (record.wasWritten + 16) =
        rest.length + 2 ^ 64 by omega, Nat.add_mod_right, Nat.mod_eq_of_lt (by omega)]

/-! ## Reading back a file -/

/-- The header of a file as `file_writer` leaves it. -/
theorem fileBytes_header (type : CompressionType) (records : List Compressed) :
    (fileBytes type records).length = 39 + ((records.map recordBytes).flatten).length ∧
      (fileBytes type records).take 7 = magicWord ∧
      (fileBytes type records).getD 7 0 = 3 ∧
      (fileBytes type records).getD 8 0 = type.code ∧
      (fileBytes type records).drop 39 = (records.map recordBytes).flatten := by
  have hheader : (fileHeader type).length = 39 := by
    simp [fileHeader, magicWord]
  unfold fileBytes
  refine ⟨by rw [List.length_append, hheader], ?_, ?_, ?_, List.drop_left' hheader⟩
  all_goals simp [fileHeader, magicWord]

/-- Opening a file as `file_writer` leaves it. -/
theorem init_fileBytes (type : CompressionType) (records : List Compressed)
    {uncompressedSize : Nat} (hsize : 0 < uncompressedSize) (wanted : Nat) :
    init (fileBytes type records) uncompressedSize wanted =
      some
        { input := (records.map recordBytes).flatten
          totalLeft := ((records.map recordBytes).flatten).length
          algorithm := type
          version := 3
          totalUncompressed := uncompressedSize
          uncompressedWanted := wanted } := by
  obtain ⟨hlength, hmagic, hversion, hcode, hdrop⟩ := fileBytes_header type records
  unfold init
  rw [if_neg (by omega), if_pos hmagic, if_pos (by omega), hcode, ofCode_code, hversion,
    hdrop, hlength, Nat.add_sub_cancel_left]

/-- Chunks as they come from the writer: the payload, and the bytes that lie
behind its buffer. -/
structure Stored where
  chunk : List UInt8
  stray : List UInt8
  chunk_ne_nil : chunk ≠ []
  stray_length : stray.length = 16

/-- The record of a stored chunk. -/
def Stored.record (codecs : Codecs) (type : CompressionType) (stored : Stored) :
    Compressed :=
  compressChunk codecs type stored.stray stored.chunk

/-- The payload of a list of chunks. -/
def storedBytes (stored : List Stored) : List UInt8 := (stored.map Stored.chunk).flatten

/-- Reading `k` chunks. -/
def decompressChunks (codecs : Codecs) (reader : Reader) (k : Nat) : Option Reader :=
  exec (fun reader () => decompressChunk codecs reader) reader (List.replicate k ())

/-- A reader that stands in front of the records of `stored`. -/
structure Reader.Before (codecs : Codecs) (type : CompressionType) (reader : Reader)
    (stored : List Stored) : Prop where
  algorithm : reader.algorithm = type
  input : reader.input =
    ((stored.map (Stored.record codecs type)).map recordBytes).flatten
  left : reader.totalLeft = reader.input.length
  fits : reader.input.length < 2 ^ 64
  room : reader.writePosition + (storedBytes stored).length = reader.totalUncompressed

theorem Reader.Before.next (hinverse : codecs.Inverse type limit) {reader : Reader}
    {first : Stored} {rest : List Stored}
    (hbefore : reader.Before codecs type (first :: rest))
    (hlimit : first.chunk.length ≤ limit) :
    ∃ next, decompressChunk codecs reader = some next ∧ next.Before codecs type rest ∧
      next.output = reader.output ++ first.chunk := by
  have hroom := hbefore.room
  have hfits := hbefore.fits
  simp only [storedBytes, List.map_cons, List.flatten_cons, List.length_append] at hroom
  obtain ⟨next, hnext, hinput, hleft, halgorithm, htotal, houtput⟩ :=
    decompressChunk_record hinverse hbefore.algorithm first.stray_length
      first.chunk_ne_nil hlimit (by omega) (by simpa [Stored.record] using hbefore.input)
      hbefore.left hfits
  have hlength : next.input.length ≤ reader.input.length := by
    rw [hinput, hbefore.input]
    simp
  refine ⟨next, hnext, ⟨halgorithm, ?_, by rw [hleft, hinput], by omega, ?_⟩, houtput⟩
  · rw [hinput, List.map_map]
  · unfold Reader.writePosition at hroom ⊢
    rw [houtput, htotal, List.length_append]
    unfold storedBytes
    omega

/-- Any number of chunks, read from the front. -/
theorem Reader.Before.decompressChunks (hinverse : codecs.Inverse type limit)
    {stored : List Stored} (hlimit : ∀ chunk ∈ stored, chunk.chunk.length ≤ limit)
    {reader : Reader} (hbefore : reader.Before codecs type stored) {k : Nat}
    (hk : k ≤ stored.length) :
    ∃ next, decompressChunks codecs reader k = some next ∧
      next.Before codecs type (stored.drop k) ∧
      next.output = reader.output ++ storedBytes (stored.take k) := by
  induction k generalizing reader stored with
  | zero => exact ⟨reader, rfl, by simpa using hbefore, by simp [storedBytes]⟩
  | succ k ih =>
      cases stored with
      | nil => simp at hk
      | cons first rest =>
          obtain ⟨middle, hfirst, hmiddle, houtput⟩ :=
            hbefore.next hinverse (hlimit first (List.mem_cons_self ..))
          obtain ⟨next, hrest, hnext, hbytes⟩ :=
            ih (fun chunk hchunk => hlimit chunk (List.mem_cons_of_mem _ hchunk)) hmiddle
              (by simpa using hk)
          refine ⟨next, ?_, by simpa using hnext, ?_⟩
          · exact exec_cons_eq_some_iff.mpr ⟨middle, hfirst, hrest⟩
          · rw [hbytes, houtput]
            simp [storedBytes]

/-- No record is empty. -/
theorem Reader.Before.totalLeft_eq_zero_iff {reader : Reader} {stored : List Stored}
    (hbefore : reader.Before codecs type stored) : reader.totalLeft = 0 ↔ stored = [] := by
  rw [hbefore.left, hbefore.input]
  cases stored with
  | nil => simp
  | cons first rest =>
      simp only [List.map_cons, List.flatten_cons, List.length_append, recordBytes_length,
        reduceCtorEq, iff_false]
      omega

/-- Opening the file of a non-empty list of chunks. -/
theorem init_stored (codecs : Codecs) (type : CompressionType) {stored : List Stored}
    (hstored : stored ≠ [])
    (hfile : (fileBytes type (stored.map (Stored.record codecs type))).length < 2 ^ 64)
    (wanted : Nat) :
    ∃ reader,
      init (fileBytes type (stored.map (Stored.record codecs type)))
        (storedBytes stored).length wanted = some reader ∧
      reader.Before codecs type stored ∧ reader.output = [] ∧
      reader.totalUncompressed = (storedBytes stored).length := by
  have hpositive : 0 < (storedBytes stored).length := by
    cases stored with
    | nil => exact absurd rfl hstored
    | cons first rest =>
        have := List.length_pos_iff.mpr first.chunk_ne_nil
        simp only [storedBytes, List.map_cons, List.flatten_cons, List.length_append]
        omega
  refine ⟨_, init_fileBytes type _ hpositive wanted, ⟨rfl, rfl, rfl, ?_, ?_⟩, rfl, rfl⟩
  · unfold fileBytes at hfile
    rw [List.length_append] at hfile
    simp only
    omega
  · simp [Reader.writePosition]

/-- `compress_chunk` on the chunks of a writer; `stray` is what lies behind the
buffer of a chunk. -/
def packer (codecs : Codecs) (type : CompressionType) (stray : Chunk → List UInt8)
    (chunk : Chunk) : Compressed :=
  compressChunk codecs type (stray chunk) chunk.bytes

/-- Non-empty chunks as a list of stored ones. -/
theorem exists_stored (codecs : Codecs) (type : CompressionType)
    {stray : Chunk → List UInt8} (hstray : ∀ chunk, (stray chunk).length = 16)
    {chunks : List Chunk} (hchunks : ∀ chunk ∈ chunks, hasBytes chunk = true)
    (hlimit : ∀ chunk ∈ chunks, chunk.bytes.length ≤ limit) :
    ∃ stored : List Stored, chunks.map (packer codecs type stray) =
        stored.map (Stored.record codecs type) ∧
      storedBytes stored = payload chunks ∧
      ∀ chunk ∈ stored, chunk.chunk.length ≤ limit := by
  induction chunks with
  | nil => exact ⟨[], rfl, rfl, by simp⟩
  | cons first rest ih =>
      obtain ⟨stored, hrecords, hbytes, hstored⟩ :=
        ih (fun chunk hchunk => hchunks chunk (List.mem_cons_of_mem _ hchunk))
          (fun chunk hchunk => hlimit chunk (List.mem_cons_of_mem _ hchunk))
      have hfirst : first.bytes ≠ [] := by
        have := hchunks first (List.mem_cons_self ..)
        simpa [hasBytes, List.length_pos_iff] using this
      refine ⟨⟨first.bytes, stray first, hfirst, hstray first⟩ :: stored, ?_, ?_, ?_⟩
      · simp [hrecords, packer, Stored.record]
      · unfold storedBytes at hbytes
        simp [storedBytes, hbytes, payload]
      · intro chunk hchunk
        rcases List.mem_cons.mp hchunk with rfl | hmem
        · exact hlimit first (List.mem_cons_self ..)
        · exact hstored chunk hmem

/-- A file that `file_writer` leaves, in the default mode, behind operations. -/
def Wrote (codecs : Codecs) (type : CompressionType) (chunkSize : Nat) (ops : List Op)
    (file : List UInt8) : Prop :=
  ∃ stray labels s, (∀ chunk, (stray chunk).length = 16) ∧
    exec (step (packer codecs type stray)) (State.init chunkSize true true) labels = some s ∧
    opsOf labels = ops ∧ s.phase = .finished ∧ file = fileBytes type s.file

/-- Such a file holds the stream of the operations, in chunks. -/
theorem Wrote.stored {chunkSize : Nat} {ops : List Op} {file : List UInt8}
    (hwrote : Wrote codecs type chunkSize ops file) (hchunkSize : chunkSize ≤ limit)
    (hblocks : ∀ op ∈ ops, op.size ≤ limit) :
    ∃ stored : List Stored, file = fileBytes type (stored.map (Stored.record codecs type)) ∧
      storedBytes stored = streamOf ops ∧ ∀ chunk ∈ stored, chunk.chunk.length ≤ limit := by
  obtain ⟨stray, labels, s, hstray, hrun, rfl, hphase, rfl⟩ := hwrote
  have haside := along_of_multithreadedCompress (packer codecs type stray) chunkSize true
    labels
  obtain ⟨hheld, -, -, closed, packed, hproduce, -, horder, hfile, -, -, hclean⟩ :=
    (run_inv (packer codecs type stray) True (haside.mono fun _ _ h _ => h) hrun).finished
      hphase
  have hpacked := hclean.mpr (along_packsEmpty_of_multithreadedCompress _ chunkSize true labels)
  have hfilter : packed = (closed ++ [s.writer.chunk]).filter hasBytes := by
    rw [← horder trivial, List.filter_eq_self.mpr hpacked]
  have hlimit : ∀ chunk ∈ packed, chunk.bytes.length ≤ limit := by
    intro chunk hchunk
    rw [hfilter] at hchunk
    exact produce_length_le hchunkSize hblocks hproduce chunk (List.mem_of_mem_filter hchunk)
  obtain ⟨stored, hstored, hbytes, hsmall⟩ :=
    exists_stored codecs type hstray hpacked hlimit
  refine ⟨stored, by rw [hfile, hstored], ?_, hsmall⟩
  rw [hbytes, hfilter, payload_filter, produce_stream hproduce hheld]

end

/-- **Container round trip.**  A file made of the header and the records of a
non-empty list of chunks opens, and reading `k` chunks from it yields the first
`k` payloads: the write position advances by each payload, everything in front
of it has been consumed, and no byte is left exactly when all chunks are read. -/
theorem container_round_trip (codecs : Codecs) (type : CompressionType) (limit : Nat)
    (hinverse : codecs.Inverse type limit) (stored : List Stored)
    (hstored : stored ≠ []) (hlimit : ∀ chunk ∈ stored, chunk.chunk.length ≤ limit)
    (hfile : (fileBytes type (stored.map (Stored.record codecs type))).length < 2 ^ 64)
    (wanted : Nat) :
    ∃ reader,
      init (fileBytes type (stored.map (Stored.record codecs type)))
        (storedBytes stored).length wanted = some reader ∧
      reader.writePosition = 0 ∧
      ∀ k, k ≤ stored.length → ∃ next,
        decompressChunks codecs reader k = some next ∧
        next.output = storedBytes (stored.take k) ∧
        next.writePosition = ((stored.take k).map fun chunk => chunk.chunk.length).sum ∧
        next.totalLeft = next.input.length ∧
        (next.totalLeft = 0 ↔ k = stored.length) := by
  obtain ⟨reader, hinit, hbefore, hempty, -⟩ := init_stored codecs type hstored hfile wanted
  refine ⟨reader, hinit, by simp [Reader.writePosition, hempty], fun k hk => ?_⟩
  obtain ⟨next, hnext, hafter, houtput⟩ :=
    hbefore.decompressChunks hinverse hlimit hk
  rw [hempty, List.nil_append] at houtput
  refine ⟨next, hnext, houtput, ?_, hafter.left, ?_⟩
  · unfold Reader.writePosition
    rw [houtput]
    simp [storedBytes, Function.comp_def]
  · rw [hafter.totalLeft_eq_zero_iff, List.drop_eq_nil_iff]
    omega

/-- Inputs of up to twelve bytes are too short for a match, so LZ4 stores them as
one run of literals: a token with the length in its upper half, and the bytes.
The density functions, which no stream of the LZ4 type calls, copy. -/
def literalCodecs : Codecs where
  densityCompress chunk := (chunk, chunk.length)
  densityDecompress input _ := some (input, input.length)
  densitySafeSize size := size + 512
  lz4Compress chunk := UInt8.ofNat (16 * chunk.length) :: chunk
  lz4Decompress input capacity :=
    match input with
    | [] => none
    | token :: rest =>
        if token.toNat / 16 ≤ rest.length ∧ token.toNat / 16 ≤ capacity then
          some (rest.take (token.toNat / 16))
        else
          none

theorem literalCodecs_inverse : literalCodecs.Inverse .lz4 12 := by
  refine ⟨by norm_num, (fun h => nomatch h), fun _ => ⟨by norm_num, ?_, ?_⟩⟩
  · intro chunk hlimit
    simp only [literalCodecs, List.length_cons]
    omega
  · intro chunk _ hlimit
    have htoken : 16 * chunk.length % 256 / 16 = chunk.length := by omega
    simp [literalCodecs, htoken]

theorem stray_zeroes : (List.replicate 16 (0 : UInt8)).length = 16 := rfl

/-- Two chunks of an LZ4 stream. -/
def twoStored : List Stored :=
  [⟨[1, 2, 3], List.replicate 16 0, by decide, stray_zeroes⟩,
    ⟨[4, 5], List.replicate 16 0, by decide, stray_zeroes⟩]

theorem container_round_trip_twoStored :
    ∃ reader, init (fileBytes .lz4 (twoStored.map (Stored.record literalCodecs .lz4))) 5 5 =
        some reader ∧
      ∃ next, decompressChunks literalCodecs reader 2 = some next ∧
        next.output = [1, 2, 3, 4, 5] ∧ next.totalLeft = 0 := by
  obtain ⟨reader, hinit, -, hread⟩ := container_round_trip literalCodecs .lz4 12
    literalCodecs_inverse twoStored (by simp [twoStored])
    (by simp [twoStored]) (by decide) 5
  obtain ⟨next, hnext, houtput, -, -, hleft⟩ := hread 2 le_rfl
  exact ⟨reader, hinit, next, hnext, houtput, hleft.mpr rfl⟩

/-- A stream without chunks has no uncompressed bytes, and the reader asserts
that there are some. -/
theorem init_refuses_stream_without_chunks :
    init (fileBytes .lz4 (([] : List Stored).map (Stored.record literalCodecs .lz4)))
      (storedBytes []).length 0 = none := by
  decide

end Container
end Lavatube
