import Lavatube.RandomAccess
import Lavatube.Lib.ByteMemory

/-!
# Readers over a mapped file

Both readers walk through a mapping with sizes that stand in the file.  Here the mapping is
a memory that goes on behind the file, and every access to it is recorded: `memcpy`,
`memcmp`, and the windows that are handed to the compression libraries.

The random access reader compares each size with what is left of the file before it moves
on.  The streaming reader compares the compressed size with `total_left` before it takes
the header off, and copies as many bytes as the *uncompressed* size says where a chunk is
stored uncompressed.  That size it compares by the end of the destination, in addresses of
64 bits.

* `initialize_tiles` — what the random access reader accepts, it has read in bounds, and
  the chunks tile the file.
* `stays_inside_iff` — the streaming reader stays in its mapping as long as every chunk
  fits behind its header.
-/

namespace Lavatube
namespace MappedFile

open Container RandomAccess ByteMemory Transition PartitionPoint

/-- A mapped file.  What lies behind its bytes is arbitrary. -/
structure Mapping where
  mem : Memory
  size : Nat
  size_lt : size < 2 ^ 64

/-- A file, with zeros behind it as in the last page of a mapping. -/
def Mapping.ofBytes (bytes : List UInt8) (hsize : bytes.length < 2 ^ 64) : Mapping :=
  ⟨fun i => bytes.getD i 0, bytes.length, hsize⟩

/-- The bytes of the file. -/
def Mapping.bytes (file : Mapping) : List UInt8 := slice file.mem 0 file.size

/-- A `uint64_t` in the mapping. -/
def Mapping.word (file : Mapping) (pos : Nat) : Nat :=
  LittleEndian.decode (slice file.mem pos 8)

/-- Some bytes of the mapping that were read. -/
structure Access where
  pos : Nat
  count : Nat
deriving DecidableEq, Repr

/-- All accesses lie in the file. -/
def Mapping.Inside (file : Mapping) (reads : List Access) : Prop :=
  ∀ read ∈ reads, read.pos + read.count ≤ file.size

instance (file : Mapping) (reads : List Access) : Decidable (file.Inside reads) :=
  inferInstanceAs (Decidable (∀ read ∈ reads, read.pos + read.count ≤ file.size))

@[simp] theorem inside_nil (file : Mapping) : file.Inside [] := by
  simp [Mapping.Inside]

@[simp] theorem inside_cons (file : Mapping) (read : Access) (reads : List Access) :
    file.Inside (read :: reads) ↔ read.pos + read.count ≤ file.size ∧ file.Inside reads := by
  simp [Mapping.Inside]

@[simp] theorem inside_append (file : Mapping) (reads more : List Access) :
    file.Inside (reads ++ more) ↔ file.Inside reads ∧ file.Inside more := by
  simp [Mapping.Inside, or_imp, forall_and]

/-- A window of the file, taken from its bytes. -/
theorem take_drop_bytes (file : Mapping) {pos count : Nat} (hend : pos + count ≤ file.size) :
    (file.bytes.drop pos).take count = slice file.mem pos count := by
  rw [Mapping.bytes, drop_slice _ _ (by omega), take_slice _ _ (by omega), Nat.zero_add]

theorem bytes_length (file : Mapping) : file.bytes.length = file.size := by
  simp [Mapping.bytes]

theorem bytes_getD (file : Mapping) {pos : Nat} (hpos : pos < file.size) :
    file.bytes.getD pos 0 = file.mem pos := by
  simp [Mapping.bytes, slice, List.getD_eq_getElem?_getD, hpos]

/-! ## The random access reader -/

/-- The scan loop of `initialize`.  The sums of offsets and sizes stay below the size of the
file, so that they do not wrap. -/
def scanChunks (file : Mapping) :
    Nat → Nat → Nat → List Access × Option (List ChunkInfo × Nat)
  | 0, _, uncompressedOffset => ([], some ([], uncompressedOffset))
  | rounds + 1, streamOffset, uncompressedOffset =>
      if streamOffset < file.size then
        if file.size - streamOffset < 16 then
          ([], none)
        else
          let reads : List Access := [⟨streamOffset, 8⟩, ⟨streamOffset + 8, 8⟩]
          let compressedSize := file.word streamOffset
          let uncompressedSize := file.word (streamOffset + 8)
          let payloadOffset := streamOffset + 16
          if compressedSize = 0 ∨ uncompressedSize = 0 then
            (reads, none)
          else if compressedSize > file.size - payloadOffset then
            (reads, none)
          else if uncompressedSize > 2 ^ 64 - 1 - uncompressedOffset then
            (reads, none)
          else
            let later := scanChunks file rounds (payloadOffset + compressedSize)
              (uncompressedOffset + uncompressedSize)
            (reads ++ later.1,
              match later.2 with
              | none => none
              | some (chunks, total) =>
                  some (⟨payloadOffset, compressedSize, uncompressedOffset,
                    uncompressedSize⟩ :: chunks, total))
      else
        ([], some ([], uncompressedOffset))

/-- The stream version, the compression algorithm and the offset of the first chunk. -/
def streamHeader (file : Mapping) : List Access × Option (UInt8 × UInt8 × Nat) :=
  if 7 ≤ file.size then
    if slice file.mem 0 7 = magicWord then
      if file.size < 39 then
        ([⟨0, 7⟩], none)
      else
        ([⟨0, 7⟩, ⟨7, 1⟩, ⟨8, 1⟩], some (file.mem 7, file.mem 8, 39))
    else
      ([⟨0, 7⟩], some (0, CompressionType.density.code, 0))
  else
    ([], some (0, CompressionType.density.code, 0))

/-- The constructor with `initialize`; `none` is an abort. -/
def initializeReader (file : Mapping) : List Access × Option RandomAccess.Reader :=
  if file.size = 0 then
    ([], none)
  else
    match streamHeader file with
    | (reads, none) => (reads, none)
    | (reads, some (version, code, streamOffset)) =>
        match CompressionType.ofCode code with
        | none => (reads, none)
        | some algorithm =>
            let scan := scanChunks file file.size streamOffset 0
            (reads ++ scan.1,
              match scan.2 with
              | none => none
              | some ([], _) => none
              | some (info :: chunks, total) =>
                  some
                    { mappedData := file.bytes
                      chunks := info :: chunks
                      totalUncompressed := total
                      compressionAlgorithm := algorithm
                      streamVersion := version })

/-- Without the record of its accesses, the scan is the one over the bytes of the file. -/
theorem scanChunks_eq (file : Mapping) (rounds streamOffset uncompressedOffset : Nat) :
    (scanChunks file rounds streamOffset uncompressedOffset).2 =
      RandomAccess.scanChunks file.bytes rounds streamOffset uncompressedOffset := by
  induction rounds generalizing streamOffset uncompressedOffset with
  | zero => rfl
  | succ rounds ih =>
      unfold scanChunks RandomAccess.scanChunks
      rw [bytes_length]
      by_cases hoffset : streamOffset < file.size
      · rw [if_pos hoffset, if_pos hoffset]
        by_cases hheader : file.size - streamOffset < 16
        · rw [if_pos hheader, if_pos hheader]
        · have hcompressed : LittleEndian.decode ((file.bytes.drop streamOffset).take 8) =
              file.word streamOffset :=
            congrArg _ (take_drop_bytes file (by omega))
          have huncompressed :
              LittleEndian.decode (((file.bytes.drop streamOffset).drop 8).take 8) =
                file.word (streamOffset + 8) := by
            rw [List.drop_drop]
            exact congrArg _ (take_drop_bytes file (by omega))
          -- the tests are the same in the same order
          rw [if_neg hheader, if_neg hheader]
          dsimp only
          rw [hcompressed, huncompressed, ← ih]
          generalize file.word streamOffset = compressedSize
          generalize file.word (streamOffset + 8) = uncompressedSize
          by_cases hempty : compressedSize = 0 ∨ uncompressedSize = 0
          · rw [if_pos hempty, if_pos hempty]
          rw [if_neg hempty, if_neg hempty]
          by_cases hlong : compressedSize > file.size - (streamOffset + 16)
          · rw [if_pos hlong, if_pos hlong]
          rw [if_neg hlong, if_neg hlong]
          by_cases hwrap : uncompressedSize > 2 ^ 64 - 1 - uncompressedOffset
          · rw [if_pos hwrap, if_pos hwrap]
          rcases (scanChunks file rounds (streamOffset + 16 + compressedSize)
              (uncompressedOffset + uncompressedSize)).2 with _ | ⟨chunks, total⟩
          · simp only [if_neg hwrap]
          · simp only [if_neg hwrap]
      · rw [if_neg hoffset, if_neg hoffset]

theorem streamHeader_eq (file : Mapping) :
    (streamHeader file).2 = RandomAccess.streamHeader file.bytes := by
  unfold streamHeader RandomAccess.streamHeader
  rw [bytes_length]
  by_cases hseven : 7 ≤ file.size
  · have hmagic : file.bytes.take 7 = slice file.mem 0 7 := by
      simpa using take_drop_bytes file (show 0 + 7 ≤ file.size by omega)
    rw [if_pos hseven, hmagic]
    split_ifs with hword hshort
    · rfl
    · rw [bytes_getD file (by omega), bytes_getD file (by omega)]
    · rfl
  · have hshort : file.bytes.take 7 ≠ magicWord := by
      intro hword
      have := congrArg List.length hword
      rw [List.length_take, bytes_length] at this
      simp only [magicWord, List.length_cons, List.length_nil] at this
      omega
    rw [if_neg hseven, if_neg hshort]

/-- **The reader over the mapping is the reader over the bytes of the file.** -/
theorem initializeReader_eq (file : Mapping) :
    (initializeReader file).2 = RandomAccess.initializeReader file.bytes := by
  unfold initializeReader RandomAccess.initializeReader
  rw [bytes_length, ← streamHeader_eq]
  by_cases hempty : file.size = 0
  · rw [if_pos hempty, if_pos hempty]
  · rw [if_neg hempty, if_neg hempty]
    rcases streamHeader file with ⟨reads, _ | ⟨version, code, streamOffset⟩⟩
    · rfl
    · cases hcode : CompressionType.ofCode code with
      | none => simp only [hcode]
      | some algorithm =>
          rcases hscan : RandomAccess.scanChunks file.bytes file.size streamOffset 0 with
            _ | ⟨_ | ⟨info, chunks⟩, total⟩
          · simp only [hcode, scanChunks_eq, hscan]
          · simp only [hcode, scanChunks_eq, hscan]
          · simp only [hcode, scanChunks_eq, hscan]

/-- No byte outside of the file is read. -/
theorem scanChunks_inside (file : Mapping) (rounds streamOffset uncompressedOffset : Nat) :
    file.Inside (scanChunks file rounds streamOffset uncompressedOffset).1 := by
  induction rounds generalizing streamOffset uncompressedOffset with
  | zero => simp [scanChunks]
  | succ rounds ih =>
      unfold scanChunks
      by_cases hoffset : streamOffset < file.size
      · rw [if_pos hoffset]
        by_cases hheader : file.size - streamOffset < 16
        · simp [if_pos hheader]
        · have hreads : file.Inside [⟨streamOffset, 8⟩, ⟨streamOffset + 8, 8⟩] := by
            rw [inside_cons, inside_cons]
            exact ⟨by show streamOffset + 8 ≤ file.size; omega,
              by show streamOffset + 8 + 8 ≤ file.size; omega, inside_nil file⟩
          rw [if_neg hheader]
          dsimp only
          split_ifs
          · exact hreads
          · exact hreads
          · exact hreads
          · exact (inside_append ..).mpr ⟨hreads, ih _ _⟩
      · simp [if_neg hoffset]

theorem streamHeader_inside (file : Mapping) : file.Inside (streamHeader file).1 := by
  unfold streamHeader
  split_ifs
  · simp only [inside_cons, inside_nil, and_true]
    omega
  · simp only [inside_cons, inside_nil, and_true]
    omega
  · simp only [inside_cons, inside_nil, and_true]
    omega
  · exact inside_nil file

theorem initializeReader_inside (file : Mapping) :
    file.Inside (initializeReader file).1 := by
  have hheader := streamHeader_inside file
  unfold initializeReader
  by_cases hempty : file.size = 0
  · rw [if_pos hempty]
    exact inside_nil file
  · rw [if_neg hempty]
    rcases hread : streamHeader file with ⟨reads, _ | ⟨version, code, streamOffset⟩⟩
    all_goals rw [hread] at hheader
    · exact hheader
    · cases hcode : CompressionType.ofCode code with
      | none => simpa only [hcode] using hheader
      | some algorithm =>
          simp only [hcode]
          exact (inside_append ..).mpr
            ⟨hheader, scanChunks_inside file file.size streamOffset 0⟩

/-- Chunks that lie behind each other from `offset` to the end of the file without a gap,
none of them empty, the uncompressed offsets adding up from `uncompressed` to `total`. -/
def Tiles (size total : Nat) : Nat → Nat → List ChunkInfo → Prop
  | offset, uncompressed, [] => offset = size ∧ uncompressed = total
  | offset, uncompressed, info :: rest =>
      info.compressedOffset = offset + 16 ∧ 0 < info.compressedSize ∧
        info.uncompressedOffset = uncompressed ∧ 0 < info.uncompressedSize ∧
        Tiles size total (offset + 16 + info.compressedSize)
          (uncompressed + info.uncompressedSize) rest

/-- **The scan loop.**  What it accepts tiles the file, and the sum of the uncompressed
sizes has not wrapped. -/
theorem scanChunks_tiles {file : Mapping} {rounds streamOffset uncompressedOffset : Nat}
    {chunks : List ChunkInfo} {total : Nat} (hoffset : streamOffset ≤ file.size)
    (hrounds : file.size - streamOffset ≤ rounds) (hsum : uncompressedOffset < 2 ^ 64)
    (hscan : (scanChunks file rounds streamOffset uncompressedOffset).2 =
      some (chunks, total)) :
    Tiles file.size total streamOffset uncompressedOffset chunks ∧ total < 2 ^ 64 := by
  induction rounds generalizing streamOffset uncompressedOffset chunks with
  | zero =>
      cases hscan
      exact ⟨⟨by omega, rfl⟩, hsum⟩
  | succ rounds ih =>
      unfold scanChunks at hscan
      by_cases hmore : streamOffset < file.size
      · rw [if_pos hmore] at hscan
        by_cases hheader : file.size - streamOffset < 16
        · rw [if_pos hheader] at hscan
          cases hscan
        · rw [if_neg hheader] at hscan
          dsimp only at hscan
          by_cases hempty : file.word streamOffset = 0 ∨ file.word (streamOffset + 8) = 0
          · rw [if_pos hempty] at hscan
            cases hscan
          rw [if_neg hempty] at hscan
          by_cases hlong : file.word streamOffset > file.size - (streamOffset + 16)
          · rw [if_pos hlong] at hscan
            cases hscan
          rw [if_neg hlong] at hscan
          by_cases hwrap : file.word (streamOffset + 8) > 2 ^ 64 - 1 - uncompressedOffset
          · rw [if_pos hwrap] at hscan
            cases hscan
          rw [if_neg hwrap] at hscan
          dsimp only at hscan
          split at hscan
          · cases hscan
          · case _ rest final hlater =>
              cases hscan
              -- a round takes 16 bytes at least, so the rounds are never used up early
              obtain ⟨htiles, htotal⟩ := ih (by omega) (by omega) (by omega) hlater
              rw [not_or] at hempty
              exact ⟨⟨rfl, Nat.pos_of_ne_zero hempty.1, rfl, Nat.pos_of_ne_zero hempty.2,
                htiles⟩, htotal⟩
      · rw [if_neg hmore] at hscan
        cases hscan
        exact ⟨⟨by omega, rfl⟩, hsum⟩

/-! ### The binary search -/

/-- The position lies in the uncompressed bytes of a chunk. -/
def ChunkInfo.Holds (info : ChunkInfo) (position : Nat) : Prop :=
  info.uncompressedOffset ≤ position ∧
    position < info.uncompressedOffset + info.uncompressedSize

section

variable {size total offset uncompressed : Nat} {chunks : List ChunkInfo}

/-- A chunk ends before any later one begins. -/
theorem Tiles.ordered (htiles : Tiles size total offset uncompressed chunks) :
    (∀ info ∈ chunks, uncompressed ≤ info.uncompressedOffset) ∧
      chunks.Pairwise fun info later =>
        info.uncompressedOffset + info.uncompressedSize ≤ later.uncompressedOffset := by
  induction chunks generalizing offset uncompressed with
  | nil => simp
  | cons first rest ih =>
      obtain ⟨-, -, hfirst, -, hrest⟩ := htiles
      obtain ⟨hbound, hpairwise⟩ := ih hrest
      rw [List.forall_mem_cons, List.pairwise_cons]
      refine ⟨⟨hfirst.ge, fun info hinfo => ?_⟩, fun later hlater => ?_, hpairwise⟩
      · have := hbound info hinfo
        omega
      · have := hbound later hlater
        omega

/-- Every position of the stream lies in some chunk. -/
theorem Tiles.covers (htiles : Tiles size total offset uncompressed chunks) {position : Nat}
    (hstart : uncompressed ≤ position) (hend : position < total) :
    ∃ (i : Nat) (info : ChunkInfo), chunks[i]? = some info ∧
      ChunkInfo.Holds info position := by
  induction chunks generalizing offset uncompressed with
  | nil =>
      obtain ⟨-, htotal⟩ := htiles
      omega
  | cons first rest ih =>
      obtain ⟨-, -, hfirst, -, hrest⟩ := htiles
      by_cases hhere : position < first.uncompressedOffset + first.uncompressedSize
      · exact ⟨0, first, rfl, by omega, hhere⟩
      · obtain ⟨i, info, hinfo, hholds⟩ := ih hrest (by omega)
        exact ⟨i + 1, info, hinfo, hholds⟩

/-- The chunks that hold a position are one chunk. -/
theorem holds_unique (hordered : chunks.Pairwise fun info later =>
      info.uncompressedOffset + info.uncompressedSize ≤ later.uncompressedOffset)
    {i j position : Nat} {info other : ChunkInfo} (hi : chunks[i]? = some info)
    (hj : chunks[j]? = some other) (hinfo : ChunkInfo.Holds info position)
    (hother : ChunkInfo.Holds other position) : i = j := by
  obtain ⟨hilt, rfl⟩ := List.getElem?_eq_some_iff.mp hi
  obtain ⟨hjlt, rfl⟩ := List.getElem?_eq_some_iff.mp hj
  rw [List.pairwise_iff_getElem] at hordered
  unfold ChunkInfo.Holds at hinfo hother
  rcases lt_trichotomy i j with hlt | heq | hgt
  · have := hordered i j hilt hjlt hlt
    omega
  · exact heq
  · have := hordered j i hjlt hilt hgt
    omega

/-- **`find_chunk`** returns the chunk that holds the position. -/
theorem findChunk_eq {reader : RandomAccess.Reader}
    (htiles : Tiles size reader.totalUncompressed offset 0 reader.chunks) {position : Nat}
    (hposition : position < reader.totalUncompressed) :
    ∃ i info, findChunk reader position = some i ∧ reader.chunks[i]? = some info ∧
      ChunkInfo.Holds info position := by
  obtain ⟨i, info, hi, hholds⟩ := htiles.covers (Nat.zero_le _) hposition
  obtain ⟨hilt, hget⟩ := List.getElem?_eq_some_iff.mp hi
  have hordered := List.pairwise_iff_getElem.mp htiles.ordered.2
  have hgetD : ∀ j (hj : j < reader.chunks.length),
      reader.chunks.getD j default = reader.chunks[j] := fun j hj => by
    rw [List.getD_eq_getElem?_getD, List.getElem?_eq_getElem hj]
    rfl
  obtain ⟨-, hlast, hfront, hback⟩ := partitionPoint_spec
    (fun middle =>
      decide ((reader.chunks.getD middle default).uncompressedOffset ≤ position))
    (Nat.le_refl (reader.chunks.length - 0)) (Nat.zero_le _)
    (fun j k hjk hk hbelow => by
      rw [decide_eq_true_eq, hgetD k hk] at hbelow
      rw [decide_eq_true_eq, hgetD j (by omega)]
      rcases hjk.eq_or_lt with rfl | hlt
      · exact hbelow
      · have := hordered j k (by omega) hk hlt
        omega)
  unfold findChunk
  rw [if_pos hposition]
  simp only [Nat.sub_zero] at hlast hfront hback ⊢
  generalize partitionPoint _ _ _ _ = first at *
  -- the chunk in front of the partition point is the one that holds the position
  have hfirst : first = i + 1 := by
    rcases lt_trichotomy first (i + 1) with hlt | heq | hgt
    · have := hback i (by omega) hilt
      rw [hgetD i hilt, hget, decide_eq_false_iff_not] at this
      exact absurd hholds.1 this
    · exact heq
    · have hnext := hfront (i + 1) (Nat.zero_le _) hgt
      have hlt : i + 1 < reader.chunks.length := by omega
      rw [hgetD _ hlt, decide_eq_true_eq] at hnext
      have := hordered i (i + 1) hilt hlt (Nat.lt_succ_self i)
      rw [hget] at this
      have := hholds.2
      omega
  refine ⟨i, info, ?_, hi, hholds⟩
  rw [hfirst, if_pos (Nat.succ_pos i), Nat.add_sub_cancel, hgetD i hilt, hget,
    if_pos hholds.2]

end

/-- Where the first chunk starts. -/
def streamStart (file : Mapping) : Nat :=
  if 7 ≤ file.size ∧ slice file.mem 0 7 = magicWord then 39 else 0

theorem streamHeader_start {file : Mapping} {version code : UInt8} {streamOffset : Nat}
    (hheader : (streamHeader file).2 = some (version, code, streamOffset)) :
    streamOffset = streamStart file ∧ streamOffset ≤ file.size := by
  unfold streamHeader at hheader
  unfold streamStart
  split_ifs at hheader with hseven hword hshort
  · cases hheader
    exact ⟨(if_pos ⟨hseven, hword⟩).symm, by omega⟩
  · cases hheader
    exact ⟨(if_neg fun h => hword h.2).symm, Nat.zero_le _⟩
  · cases hheader
    exact ⟨(if_neg fun h => hseven h.1).symm, Nat.zero_le _⟩

/-- **Opening a file for random access.**  Whatever the bytes of the file are: nothing
outside of them is read, and if a reader comes out, its chunks tile the file behind the
header, their uncompressed offsets are sums that have not wrapped, and the search finds for
every position the one chunk that holds it. -/
theorem initialize_tiles (file : Mapping) :
    file.Inside (initializeReader file).1 ∧
      ∀ reader, (initializeReader file).2 = some reader →
        reader.chunks ≠ [] ∧ reader.totalUncompressed < 2 ^ 64 ∧
        Tiles file.size reader.totalUncompressed (streamStart file) 0 reader.chunks ∧
        ∀ position, position < reader.totalUncompressed →
          ∃ i info, findChunk reader position = some i ∧
            reader.chunks[i]? = some info ∧ ChunkInfo.Holds info position ∧
            ∀ j other, reader.chunks[j]? = some other → ChunkInfo.Holds other position →
              j = i := by
  refine ⟨initializeReader_inside file, fun reader hreader => ?_⟩
  unfold initializeReader at hreader
  by_cases hempty : file.size = 0
  · rw [if_pos hempty] at hreader
    cases hreader
  rw [if_neg hempty] at hreader
  split at hreader
  · cases hreader
  · case _ reads version code streamOffset hheader =>
      obtain ⟨hstart, hle⟩ := streamHeader_start (congrArg Prod.snd hheader)
      split at hreader
      · cases hreader
      · case _ algorithm hcode =>
          dsimp only at hreader
          split at hreader
          · cases hreader
          · cases hreader
          · case _ info chunks total hscan =>
              obtain ⟨hscanned, htotal⟩ :=
                scanChunks_tiles hle (Nat.sub_le ..) (by norm_num) hscan
              rw [hstart] at hscanned
              have hmembers := Option.some.inj hreader
              have htiles : Tiles file.size reader.totalUncompressed (streamStart file) 0
                  reader.chunks := by
                rw [← hmembers]
                exact hscanned
              refine ⟨by simp [← hmembers], by rw [← hmembers]; exact htotal, htiles,
                fun position hposition => ?_⟩
              obtain ⟨i, found, hfind, hfound, hholds⟩ := findChunk_eq htiles hposition
              exact ⟨i, found, hfind, hfound, hholds, fun j other hother hin =>
                holds_unique htiles.ordered.2 hother hfound hin hholds⟩

/-- Two uncompressed chunks, of one and of two bytes. -/
def twoChunkFile : Mapping :=
  .ofBytes (fileHeader .uncompressed ++ recordBytes ⟨1, 1, [5]⟩ ++ recordBytes ⟨2, 2, [6, 7]⟩)
    (by decide)

theorem initialize_tiles_twoChunkFile :
    ∃ reader, (initializeReader twoChunkFile).2 = some reader ∧
      Tiles 74 reader.totalUncompressed 39 0 reader.chunks ∧
      findChunk reader 2 = some 1 := by
  have hopen : (initializeReader twoChunkFile).2.isSome = true := by decide
  obtain ⟨reader, hreader⟩ := Option.isSome_iff_exists.mp hopen
  obtain ⟨-, -, htiles, -⟩ := (initialize_tiles twoChunkFile).2 reader hreader
  refine ⟨reader, hreader, htiles, ?_⟩
  have hfind : (initializeReader twoChunkFile).2.bind (findChunk · 2) = some 1 := by decide
  rwa [hreader] at hfind

/-! ## The streaming reader -/

/-- The members of `file_reader` that opening and decompressing use.  `pos` is the position
of `compressed_data` in the file, and `uncompressedData` the address of the output. -/
structure Stream where
  pos : Nat
  totalLeft : Nat
  algorithm : CompressionType
  version : UInt8 := 0
  uncompressedData : Nat
  totalUncompressed : Nat
  uncompressedWanted : Nat
  output : List UInt8 := []
  lastChunkSize : Nat := 0
  doneDecompressing : Bool := false
deriving DecidableEq, Repr

/-- `init_mapped` (and `init`, which maps the file itself), with the address that `mmap` gives
out for the output.  The magic word is looked for before the size of the file is known to be
sufficient. -/
def init (file : Mapping) (address uncompressedSize uncompressedTarget : Nat) : Option Stream :=
  if file.size = 0 ∨ uncompressedSize = 0 then
    none
  else if slice file.mem 0 7 = magicWord then
    match CompressionType.ofCode (file.mem 8) with
    | none => none
    | some algorithm =>
        if 39 ≤ file.size then
          some
            { pos := 39
              totalLeft := file.size - 39
              algorithm := algorithm
              version := file.mem 7
              uncompressedData := address
              totalUncompressed := uncompressedSize
              uncompressedWanted := uncompressedTarget }
        else
          none
  else
    some
      { pos := 0
        totalLeft := file.size
        algorithm := .density
        uncompressedData := address
        totalUncompressed := uncompressedSize
        uncompressedWanted := uncompressedTarget }

/-- A size as LZ4 gets it, in an `int`; it refuses negative ones. -/
def intSize (size : Nat) : Option Nat :=
  if size % 2 ^ 32 < 2 ^ 31 then some (size % 2 ^ 32) else none

theorem intSize_eq_some {size : Nat} (hsize : size < 2 ^ 31) : intSize size = some size := by
  unfold intSize
  rw [Nat.mod_eq_of_lt (by omega), if_pos hsize]

section

variable (codecs : Codecs) (file : Mapping) (s : Stream)

/-- `header[0]`. -/
def Stream.compressedSize : Nat := file.word s.pos

/-- `header[1]`. -/
def Stream.uncompressedSize : Nat := file.word (s.pos + 8)

/-- `write_position`, a `uint64_t`. -/
def Stream.writePosition : Nat := s.output.length % 2 ^ 64

/-- `density_decompress_safe_size`, in 64 bits. -/
def safeSize (size : Nat) : Nat := codecs.densitySafeSize size % 2 ^ 64

/-- The address `uncompressed_data + offset`. -/
def Stream.address (offset : Nat) : Nat := (s.uncompressedData + offset) % 2 ^ 64

/-- The assertions of `decompress_chunk`.  The last two compare addresses, which come round. -/
def admitted : Bool :=
  s.compressedSize file ≤ s.totalLeft ∧
    s.address (s.writePosition + s.uncompressedSize file) ≤ s.address s.totalUncompressed ∧
    (s.algorithm = .density →
      s.address (s.writePosition + safeSize codecs (s.uncompressedSize file)) ≤
        s.address (safeSize codecs s.totalUncompressed))

/-- How many bytes behind the header are handed on. -/
def Stream.payloadSize : Nat :=
  match s.algorithm with
  | .density => s.compressedSize file
  | .lz4 =>
      match intSize (s.compressedSize file), intSize (s.uncompressedSize file) with
      | some size, some _ => size
      | _, _ => 0
  | .uncompressed => s.uncompressedSize file

/-- What is put at the destination; `none` is an `ABORT`. -/
def decompressBody : Option (List UInt8) :=
  let payload := slice file.mem (s.pos + 16) (s.payloadSize file)
  let uncompressedSize := s.uncompressedSize file
  match s.algorithm with
  | .density =>
      match codecs.densityDecompress payload (safeSize codecs uncompressedSize) with
      | none => none
      | some (bytes, _) => some (bytes.takeD uncompressedSize 0)
  | .lz4 =>
      match intSize (s.compressedSize file), intSize uncompressedSize with
      | some _, some capacity =>
          match codecs.lz4Decompress payload capacity with
          | none => none
          | some bytes => if bytes.length = uncompressedSize then some bytes else none
      | _, _ => none
  | .uncompressed => some payload

/-- What one execution does: the accesses to the mapping, and the members behind it unless
it ended in an `ABORT`. -/
structure Execution where
  reads : List Access
  next : Option Stream

/-- `decompress_chunk`; `none` is a failed assertion. -/
def decompressChunk : Option Execution :=
  let compressedSize := s.compressedSize file
  let uncompressedSize := s.uncompressedSize file
  if admitted codecs file s then
    some
      { reads := [⟨s.pos, 8⟩, ⟨s.pos + 8, 8⟩, ⟨s.pos + 16, s.payloadSize file⟩]
        next :=
          match decompressBody codecs file s with
          | none => none
          | some bytes =>
              let totalLeft := (s.totalLeft + 2 ^ 64 - (compressedSize + 16)) % 2 ^ 64
              let output := s.output ++ bytes
              some { s with
                pos := s.pos + 16 + compressedSize
                totalLeft := totalLeft
                output := output
                lastChunkSize := uncompressedSize
                doneDecompressing := s.doneDecompressing ||
                  decide (totalLeft = 0 ∨ output.length % 2 ^ 64 ≥ s.uncompressedWanted) } }
  else
    none

end

/-- The members after `k` chunks. -/
def decompressChunks (codecs : Codecs) (file : Mapping) (s : Stream) : Nat → Option Stream
  | 0 => some s
  | k + 1 =>
      match decompressChunk codecs file s with
      | some ⟨_, some next⟩ => decompressChunks codecs file next k
      | _ => none

/-- An execution that passes its assertions has read nothing outside of the file, and
leaves in `total_left` what has not been consumed. -/
def StaysInside (codecs : Codecs) (file : Mapping) (s : Stream) : Prop :=
  ∀ run, decompressChunk codecs file s = some run → file.Inside run.reads ∧
    ∀ next, run.next = some next → next.pos + next.totalLeft = file.size

/-- A chunk that passes the assertions fits into `total_left` together with its header:
with the bytes that are handed on, and with its compressed size unless the library refuses
the payload. -/
def Fits (codecs : Codecs) (file : Mapping) (s : Stream) : Prop :=
  admitted codecs file s = true →
    16 + s.payloadSize file ≤ s.totalLeft ∧
      (decompressBody codecs file s ≠ none → 16 + s.compressedSize file ≤ s.totalLeft)

section

variable {codecs : Codecs} {file : Mapping} {s t : Stream}

theorem init_balanced {address uncompressedSize uncompressedTarget : Nat}
    (hinit : init file address uncompressedSize uncompressedTarget = some s) :
    s.pos + s.totalLeft = file.size := by
  unfold init at hinit
  split at hinit
  · cases hinit
  · split at hinit
    · split at hinit
      · cases hinit
      · split at hinit
        · case _ hsize =>
            cases hinit
            exact Nat.add_sub_cancel' hsize
        · cases hinit
    · cases hinit
      exact Nat.zero_add _

/-- **One execution** stays inside exactly if the chunk fits. -/
theorem staysInside_iff (hbalanced : s.pos + s.totalLeft = file.size) :
    StaysInside codecs file s ↔ Fits codecs file s := by
  unfold StaysInside Fits decompressChunk
  by_cases hadmitted : admitted codecs file s = true
  · have hcompressed : s.compressedSize file ≤ s.totalLeft :=
      (of_decide_eq_true hadmitted).1
    have hsize := file.size_lt
    have hreads : file.Inside
        [⟨s.pos, 8⟩, ⟨s.pos + 8, 8⟩, ⟨s.pos + 16, s.payloadSize file⟩] ↔
          16 + s.payloadSize file ≤ s.totalLeft := by
      simp only [inside_cons, inside_nil, and_true]
      omega
    simp only [hadmitted, if_true, Option.some.injEq, forall_eq', forall_const]
    rw [hreads]
    refine and_congr_right fun _ => ?_
    cases decompressBody codecs file s with
    | none => simp
    | some bytes =>
        simp only [Option.some.injEq, forall_eq', ne_eq, reduceCtorEq, not_false_eq_true,
          forall_const]
        -- the subtraction wraps exactly if the header does not fit behind the payload
        omega
  · simp [hadmitted]

theorem decompressChunks_succ (k : Nat) :
    decompressChunks codecs file s (k + 1) = some t ↔
      ∃ run next, decompressChunk codecs file s = some run ∧ run.next = some next ∧
        decompressChunks codecs file next k = some t := by
  rw [decompressChunks]
  constructor
  · intro hrun
    split at hrun
    · case _ reads next hchunk => exact ⟨_, next, hchunk, rfl, hrun⟩
    · cases hrun
  · rintro ⟨⟨reads, next'⟩, next, hchunk, rfl, hrest⟩
    rw [hchunk]
    exact hrest

/-- As long as the executions stay inside, `total_left` is what is left. -/
theorem decompressChunks_balanced {k : Nat} (hbalanced : s.pos + s.totalLeft = file.size)
    (hinside : ∀ j < k, ∀ u, decompressChunks codecs file s j = some u →
      StaysInside codecs file u)
    (hrun : decompressChunks codecs file s k = some t) :
    t.pos + t.totalLeft = file.size := by
  induction k generalizing s with
  | zero =>
      cases hrun
      exact hbalanced
  | succ k ih =>
      obtain ⟨run, next, hchunk, hnext, hrest⟩ := (decompressChunks_succ k).mp hrun
      have hfirst := hinside 0 (Nat.succ_pos k) s rfl
      refine ih ((hfirst run hchunk).2 next hnext) (fun j hj u hu => ?_) hrest
      exact hinside (j + 1) (Nat.succ_lt_succ hj) u
        ((decompressChunks_succ j).mpr ⟨run, next, hchunk, hnext, hu⟩)

end

/-! ### The reader without a mapping -/

/-- The members as `Container.Reader` has them, with the input cut off at the end of the
file. -/
def Stream.reader (file : Mapping) (s : Stream) : Container.Reader where
  input := slice file.mem s.pos s.totalLeft
  totalLeft := s.totalLeft
  algorithm := s.algorithm
  version := s.version
  totalUncompressed := s.totalUncompressed
  uncompressedWanted := s.uncompressedWanted
  output := s.output
  lastChunkSize := s.lastChunkSize
  doneDecompressing := s.doneDecompressing

@[simp] theorem reader_totalLeft (file : Mapping) (s : Stream) :
    (s.reader file).totalLeft = s.totalLeft := rfl

/-- A file that is as long as the magic word is opened alike. -/
theorem init_eq (file : Mapping) (hsize : 7 ≤ file.size)
    (address uncompressedSize uncompressedTarget : Nat) :
    Container.init file.bytes uncompressedSize uncompressedTarget =
      (init file address uncompressedSize uncompressedTarget).map (Stream.reader file) := by
  have hmagic : file.bytes.take 7 = slice file.mem 0 7 := by
    simpa using take_drop_bytes file (show 0 + 7 ≤ file.size by omega)
  unfold Container.init init
  rw [bytes_length, hmagic]
  by_cases hempty : file.size = 0 ∨ uncompressedSize = 0
  · rw [if_pos hempty, if_pos hempty]
    rfl
  rw [if_neg hempty, if_neg hempty]
  by_cases hword : slice file.mem 0 7 = magicWord
  · rw [if_pos hword, if_pos hword]
    by_cases hheader : 39 ≤ file.size
    · rw [if_pos hheader, bytes_getD file (by omega), bytes_getD file (by omega)]
      have hdrop : file.bytes.drop 39 = slice file.mem 39 (file.size - 39) := by
        simpa [Mapping.bytes] using drop_slice file.mem 0 hheader
      cases hcode : CompressionType.ofCode (file.mem 8) with
      | none => rfl
      | some algorithm =>
          simp only [if_pos hheader, hdrop, Option.map_some]
          rfl
    · rw [if_neg hheader]
      cases CompressionType.ofCode (file.mem 8) with
      | none => rfl
      | some algorithm => simp only [if_neg hheader, Option.map_none]
  · rw [if_neg hword, if_neg hword]
    rfl

/-- The sizes of a chunk that is handed on as it is stored, to addresses that do not come
round. -/
structure Plain (codecs : Codecs) (file : Mapping) (s : Stream) : Prop where
  compressed : 16 + s.compressedSize file ≤ s.totalLeft
  uncompressed : s.algorithm = .uncompressed → 16 + s.uncompressedSize file ≤ s.totalLeft
  lz4 : s.algorithm = .lz4 →
    s.compressedSize file < 2 ^ 31 ∧ s.uncompressedSize file < 2 ^ 31
  room : s.uncompressedData + s.totalUncompressed < 2 ^ 64
  chunk : s.uncompressedData + (s.output.length + s.uncompressedSize file) < 2 ^ 64
  densityRoom : s.uncompressedData + codecs.densitySafeSize s.totalUncompressed < 2 ^ 64
  densityChunk : s.uncompressedData +
    (s.output.length + codecs.densitySafeSize (s.uncompressedSize file)) < 2 ^ 64

section

variable {codecs : Codecs} {file : Mapping} {s : Stream}

/-- Nothing comes round where the chunk is plain. -/
theorem writePosition_eq (hplain : Plain codecs file s) : s.writePosition = s.output.length := by
  have := hplain.chunk
  exact Nat.mod_eq_of_lt (by omega)

theorem safeSize_total (hplain : Plain codecs file s) :
    safeSize codecs s.totalUncompressed = codecs.densitySafeSize s.totalUncompressed := by
  have := hplain.densityRoom
  exact Nat.mod_eq_of_lt (by omega)

theorem safeSize_chunk (hplain : Plain codecs file s) :
    safeSize codecs (s.uncompressedSize file) =
      codecs.densitySafeSize (s.uncompressedSize file) := by
  have := hplain.densityChunk
  exact Nat.mod_eq_of_lt (by omega)

/-- There the assertions compare the sizes. -/
theorem admitted_iff (hplain : Plain codecs file s) :
    admitted codecs file s = true ↔
      s.compressedSize file ≤ s.totalLeft ∧
        s.output.length + s.uncompressedSize file ≤ s.totalUncompressed ∧
        (s.algorithm = .density →
          s.output.length + codecs.densitySafeSize (s.uncompressedSize file) ≤
            codecs.densitySafeSize s.totalUncompressed) := by
  rw [admitted, decide_eq_true_iff, writePosition_eq hplain, safeSize_total hplain,
    safeSize_chunk hplain]
  simp only [Stream.address, Nat.mod_eq_of_lt hplain.room, Nat.mod_eq_of_lt hplain.chunk,
    Nat.mod_eq_of_lt hplain.densityRoom, Nat.mod_eq_of_lt hplain.densityChunk,
    Nat.add_le_add_iff_left]

theorem decompressBody_eq (hplain : Plain codecs file s) :
    Container.decompressBody codecs (s.reader file)
        (slice file.mem (s.pos + 16) (s.totalLeft - 16)) (s.compressedSize file)
        (s.uncompressedSize file) =
      if s.algorithm = .density →
          s.output.length + codecs.densitySafeSize (s.uncompressedSize file) ≤
            codecs.densitySafeSize s.totalUncompressed then
        decompressBody codecs file s
      else
        none := by
  have htake : ∀ count, 16 + count ≤ s.totalLeft →
      (slice file.mem (s.pos + 16) (s.totalLeft - 16)).take count =
        slice file.mem (s.pos + 16) count :=
    fun count hcount => take_slice _ _ (by omega)
  unfold Container.decompressBody decompressBody Stream.payloadSize
  -- only Density asks for room past what the header says
  cases halgorithm : s.algorithm with
  | density =>
      rcases hresult : codecs.densityDecompress
          (slice file.mem (s.pos + 16) (s.compressedSize file))
          (codecs.densitySafeSize (s.uncompressedSize file)) with _ | ⟨bytes, read⟩
      · simp only [Stream.reader, halgorithm, Reader.writePosition, forall_const,
          htake _ hplain.compressed, safeSize_chunk hplain, hresult]
      · simp only [Stream.reader, halgorithm, Reader.writePosition, forall_const,
          htake _ hplain.compressed, safeSize_chunk hplain, hresult]
  | lz4 =>
      obtain ⟨hsize, hcapacity⟩ := hplain.lz4 halgorithm
      rcases hresult : codecs.lz4Decompress
          (slice file.mem (s.pos + 16) (s.compressedSize file)) (s.uncompressedSize file) with
        _ | bytes
      · simp only [Stream.reader, halgorithm, htake _ hplain.compressed,
          intSize_eq_some hsize, intSize_eq_some hcapacity, reduceCtorEq, false_implies,
          if_true, hresult]
      · simp only [Stream.reader, halgorithm, htake _ hplain.compressed,
          intSize_eq_some hsize, intSize_eq_some hcapacity, reduceCtorEq, false_implies,
          if_true, hresult]
  | uncompressed =>
      have huncompressed := hplain.uncompressed halgorithm
      have hlength : s.uncompressedSize file ≤
          (slice file.mem (s.pos + 16) (s.totalLeft - 16)).length := by
        rw [slice_length]
        omega
      simp only [Stream.reader, halgorithm, if_pos hlength, htake _ huncompressed,
        reduceCtorEq, false_implies, if_true]

/-- A chunk brings as many bytes as its header says. -/
theorem decompressBody_length {bytes : List UInt8}
    (hbody : decompressBody codecs file s = some bytes) :
    bytes.length = s.uncompressedSize file := by
  unfold decompressBody at hbody
  cases halgorithm : s.algorithm with
  | density =>
      simp only [halgorithm] at hbody
      split at hbody
      · cases hbody
      · obtain rfl := Option.some.inj hbody
        exact List.takeD_length ..
  | lz4 =>
      simp only [halgorithm] at hbody
      split at hbody
      · split at hbody
        · cases hbody
        · split_ifs at hbody with hlength
          cases hbody
          exact hlength
      · cases hbody
  | uncompressed =>
      simp only [halgorithm] at hbody
      obtain rfl := Option.some.inj hbody
      rw [slice_length, Stream.payloadSize, halgorithm]

/-- **A chunk that fits** is decompressed alike, where LZ4 gets its sizes as they are. -/
theorem decompressChunk_eq (hplain : Plain codecs file s) (hleft : s.totalLeft < 2 ^ 64) :
    Container.decompressChunk codecs (s.reader file) =
      ((decompressChunk codecs file s).bind Execution.next).map (Stream.reader file) := by
  have hcompressed := hplain.compressed
  have hfirst : LittleEndian.decode ((s.reader file).input.take 8) =
      s.compressedSize file := by
    rw [Stream.reader, take_slice _ _ (by omega)]
    rfl
  have hsecond : LittleEndian.decode (((s.reader file).input.drop 8).take 8) =
      s.uncompressedSize file := by
    rw [Stream.reader, drop_slice _ _ (by omega), take_slice _ _ (by omega)]
    rfl
  have hbody : (s.reader file).input.drop 16 =
      slice file.mem (s.pos + 16) (s.totalLeft - 16) :=
    drop_slice _ _ (by omega)
  -- what is left does not wrap, as the chunk is plain
  have hsubtract : (s.totalLeft + 2 ^ 64 - (s.compressedSize file + 16)) % 2 ^ 64 =
      s.totalLeft - 16 - s.compressedSize file := by
    omega
  have hnext : (slice file.mem (s.pos + 16) (s.totalLeft - 16)).drop
        (s.compressedSize file) =
      slice file.mem (s.pos + 16 + s.compressedSize file)
        (s.totalLeft - 16 - s.compressedSize file) :=
    drop_slice _ _ (by omega)
  have hheader : 16 ≤ (s.reader file).input.length := by
    rw [Stream.reader, slice_length]
    omega
  unfold Container.decompressChunk decompressChunk
  rw [if_pos hheader]
  simp only [hfirst, hsecond, hbody, hnext, decompressBody_eq hplain, reader_totalLeft,
    hsubtract]
  clear hsubtract
  by_cases hsizes : s.compressedSize file ≤ s.totalLeft ∧
      s.output.length + s.uncompressedSize file ≤ s.totalUncompressed
  -- the third assertion speaks of Density only
  · by_cases hdensity : s.algorithm = .density →
        s.output.length + codecs.densitySafeSize (s.uncompressedSize file) ≤
          codecs.densitySafeSize s.totalUncompressed
    · have hadmitted : admitted codecs file s = true :=
        (admitted_iff hplain).mpr ⟨hsizes.1, hsizes.2, hdensity⟩
      rw [if_pos hdensity, if_pos hadmitted]
      refine (if_pos hsizes).trans ?_
      cases hbytes : decompressBody codecs file s with
      | none => rfl
      | some bytes =>
          have hwritten : (s.output ++ bytes).length % 2 ^ 64 = (s.output ++ bytes).length := by
            have := hplain.chunk
            rw [List.length_append, decompressBody_length hbytes]
            exact Nat.mod_eq_of_lt (by omega)
          simp only [hwritten]
          rfl
    · have hrefused : ¬admitted codecs file s = true := fun hadmitted =>
        hdensity ((admitted_iff hplain).mp hadmitted).2.2
      rw [if_neg hdensity, if_neg hrefused]
      exact if_pos hsizes
  · have hrefused : ¬admitted codecs file s = true := fun hadmitted =>
      have := (admitted_iff hplain).mp hadmitted
      hsizes ⟨this.1, this.2.1⟩
    rw [if_neg hrefused]
    exact if_neg hsizes

end

/-- **The streaming reader in its mapping.**  Whatever the file, the declared size and the
address of the output are, the first `n` executions of `decompress_chunk` stay inside of the file, with `total_left`
the number of bytes that are left, exactly if every chunk they come to fits with its
header. -/
theorem stays_inside_iff (codecs : Codecs) (file : Mapping)
    (address uncompressedSize uncompressedTarget : Nat) (s : Stream)
    (hinit : init file address uncompressedSize uncompressedTarget = some s) (n : Nat) :
    (∀ k < n, ∀ t, decompressChunks codecs file s k = some t → StaysInside codecs file t) ↔
      ∀ k < n, ∀ t, decompressChunks codecs file s k = some t → Fits codecs file t := by
  have hbalanced := init_balanced hinit
  constructor
  · intro hinside k hk t ht
    have hleft := decompressChunks_balanced hbalanced
      (fun j hj => hinside j (hj.trans hk)) ht
    exact (staysInside_iff hleft).mp (hinside k hk t ht)
  · intro hfits k
    induction k using Nat.strong_induction_on with
    | _ k ih =>
        intro hk t ht
        have hleft := decompressChunks_balanced hbalanced
          (fun j hj => ih j hj (hj.trans hk)) ht
        exact (staysInside_iff hleft).mpr (hfits k hk t ht)

/-- An uncompressed chunk of one byte. -/
def oneChunkFile : Mapping :=
  .ofBytes (fileHeader .uncompressed ++ recordBytes ⟨1, 1, [5]⟩) (by decide)

theorem stays_inside_iff_oneChunkFile :
    ∃ s, init oneChunkFile 4096 1 1 = some s ∧
      ∀ k < 1, ∀ t, decompressChunks literalCodecs oneChunkFile s k = some t →
        StaysInside literalCodecs oneChunkFile t := by
  refine ⟨_, rfl, (stays_inside_iff literalCodecs oneChunkFile 4096 1 1 _ rfl 1).mpr ?_⟩
  intro k hk t ht
  obtain rfl : k = 0 := by omega
  cases ht
  intro _
  decide

/-- An uncompressed chunk of four bytes, with a compressed size that counts the header. -/
def longChunkFile : Mapping :=
  .ofBytes (fileHeader .uncompressed ++ recordBytes ⟨20, 4, [1, 2, 3, 4]⟩) (by decide)

/-- An uncompressed chunk of one byte, with an uncompressed size of eight less than 2⁶⁴. -/
def wideChunkFile : Mapping :=
  .ofBytes (fileHeader .uncompressed ++ recordBytes ⟨1, 2 ^ 64 - 8, [5]⟩) (by decide)

/-- The assertion lets the compressed size pass, and `total_left` wraps; and the end of the
destination comes round, so that an uncompressed size is let pass which leads out of the file. -/
theorem total_left_wraps :
    (¬∀ (codecs : Codecs) (file : Mapping) (address uncompressedSize uncompressedTarget : Nat)
      (s : Stream), init file address uncompressedSize uncompressedTarget = some s →
      ∀ k t, decompressChunks codecs file s k = some t → StaysInside codecs file t) ∧
    ∃ s run, init wideChunkFile 4096 1 1 = some s ∧
      decompressChunk literalCodecs wideChunkFile s = some run ∧
        ¬wideChunkFile.Inside run.reads := by
  constructor
  · intro hall
    have hstays := hall literalCodecs longChunkFile 4096 4 4 _ rfl 0 _ rfl
    have hbalance := (hstays _ rfl).2 _ rfl
    revert hbalance
    decide
  · refine ⟨_, _, rfl, rfl, ?_⟩
    decide

end MappedFile
end Lavatube
