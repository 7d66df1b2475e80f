import Lavatube.FrameLimit

/-!
# The wait for data

Every read of `file_reader` starts with `check_space`, which waits until the decompressor
has come far enough.  In the loop stands an assertion: the write position that has been
seen, plus the size of the read, is below the size of the stream.  It compares the write
position where the read position is meant, and it is strict.

* `Returns` — `check_space` comes to its end under every schedule of the two threads, and
  its assertion does not fail.
* `lastShort` — the last chunk boundary in front of the end of the read.
* `Waits.step` — what one step of either thread keeps while `check_space` runs.
* `check_space_returns_iff` — a legal read gets through exactly if its bytes are there
  already, or the assertion holds at the last boundary in front of its end and the
  decompressor does not stop before that.
-/

namespace Lavatube
namespace CheckSpace

open Container FileReader FrameLimit Transition

/-- The steps of both threads while the consumer is in the call at `pc`. -/
def stepAt (codecs : Codecs) (config : Config) (pc : Pc) (s : State) (label : Label) :
    Option State :=
  if s.pc = pc then step codecs config s label else none

/-- The look of `check_space` at the write position fails the assertion. -/
def AssertionFails (config : Config) (s : State) (size : Nat) : Prop :=
  s.asleep config = false ∧ s.stalled config = false ∧ s.available < size ∧
    ¬s.writePosition + size < s.file.totalUncompressed

instance (config : Config) (s : State) (size : Nat) :
    Decidable (AssertionFails config s size) :=
  inferInstanceAs (Decidable (_ ∧ _ ∧ _ ∧ _))

/-- `check_space` for `size` bytes, entered in `s`: under every schedule the assertion
holds, the two threads do not block each other, the number of steps is bounded, and the
step out of the call finds the bytes published. -/
structure Returns (codecs : Codecs) (config : Config) (s : State) (size : Nat) : Prop where
  safe : ∀ labels t, exec (stepAt codecs config s.pc) s labels = some t → t.pc = s.pc →
    ¬AssertionFails config t size
  progress : ∀ labels t, exec (stepAt codecs config s.pc) s labels = some t →
    t.pc = s.pc → ∃ label next, step codecs config t label = some next
  bounded : ∃ n, ∀ labels t, exec (stepAt codecs config s.pc) s labels = some t →
    labels.length ≤ n
  space : ∀ labels t label next, exec (stepAt codecs config s.pc) s labels = some t →
    t.pc = s.pc → step codecs config t label = some next → next.pc ≠ s.pc →
    t.readPosition + size ≤ t.writePosition

/-- The last chunk boundary in front of a position, from one in front of it on. -/
def lastShort (target position : Nat) : List Stored → Nat
  | [] => position
  | first :: rest =>
      let next := position + first.chunk.length
      if next < target then lastShort target next rest else position

theorem le_lastShort (target position : Nat) (rest : List Stored) :
    position ≤ lastShort target position rest := by
  induction rest generalizing position with
  | nil => exact le_rfl
  | cons first rest ih =>
      unfold lastShort
      simp only
      split
      · exact (Nat.le_add_right ..).trans (ih _)
      · exact le_rfl

/-- A legal call of `check_space`: what the consumer asks for lies in the stream, and the
decompressor stands in front of the chunks `rest`. -/
structure Called (codecs : Codecs) (config : Config) (type : CompressionType)
    (limit stop : Nat) (s : State) (rest : List Stored) (size : Nat) : Prop where
  request : s.pc.request = some size
  entered : s.waiting = none
  before : s.file.Before codecs type rest
  small : ∀ chunk ∈ rest, chunk.chunk.length ≤ limit
  total_lt : s.file.totalUncompressed < 2 ^ 64
  read_le : s.readPosition ≤ s.writePosition
  legal : s.readPosition + size ≤ s.file.totalUncompressed
  thread : config.multithreadedRead = true → Supply codecs type limit stop s rest

/-- What holds while `check_space` runs: as for the call, and what it has published when it
went to sleep. -/
structure Waits (codecs : Codecs) (config : Config) (type : CompressionType)
    (limit stop : Nat) (pc : Pc) (size : Nat) (s : State) (rest : List Stored) :
    Prop where
  pc_eq : s.pc = pc
  request : pc.request = some size
  before : s.file.Before codecs type rest
  small : ∀ chunk ∈ rest, chunk.chunk.length ≤ limit
  total_lt : s.file.totalUncompressed < 2 ^ 64
  read_le : s.readPosition ≤ s.writePosition
  legal : s.readPosition + size ≤ s.file.totalUncompressed
  thread : config.multithreadedRead = true → Supply codecs type limit stop s rest
  asleep : ∀ seen, s.waiting = some seen → seen ≤ s.writePosition ∧
    seen < s.readPosition + size ∧ s.neededWritePosition = s.readPosition + size

/-- The read gets through: it is served already, or the assertion holds wherever the loop
can look. -/
def Served (config : Config) (stop size : Nat) (s : State) (rest : List Stored) : Prop :=
  s.readPosition + size ≤ s.writePosition ∨
    (lastShort (s.readPosition + size) s.writePosition rest + size <
        s.file.totalUncompressed ∧
      (config.multithreadedRead = true → s.readPosition + size ≤ stop))

section

variable {codecs : Codecs} {config : Config} {type : CompressionType}
variable {limit stop size : Nat} {pc : Pc} {s next : State} {rest : List Stored}

/-- What the decompressor thread keeps is all that a call asks of it. -/
theorem called_of_supply (hrequest : s.pc.request = some size) (hentered : s.waiting = none)
    (hsupply : Supply codecs type limit stop s rest)
    (htotal : s.file.totalUncompressed < 2 ^ 64)
    (hread : s.readPosition ≤ s.writePosition)
    (hlegal : s.readPosition + size ≤ s.file.totalUncompressed) :
    Called codecs config type limit stop s rest size :=
  ⟨hrequest, hentered, hsupply.before, hsupply.small, htotal, hread, hlegal,
    fun _ => hsupply⟩

theorem Called.waits (hcalled : Called codecs config type limit stop s rest size) :
    Waits codecs config type limit stop s.pc size s rest where
  pc_eq := rfl
  request := hcalled.request
  before := hcalled.before
  small := hcalled.small
  total_lt := hcalled.total_lt
  read_le := hcalled.read_le
  legal := hcalled.legal
  thread := hcalled.thread
  asleep := by simp [hcalled.entered]

theorem Waits.available (hwaits : Waits codecs config type limit stop pc size s rest) :
    s.available = s.writePosition - s.readPosition := by
  have hread := hwaits.read_le
  have htotal := hwaits.total_lt
  have hroom := hwaits.before.room
  unfold State.available State.writePosition at *
  omega

/-- A read that is short of bytes has chunks in front of it. -/
theorem Waits.next_chunk (hinverse : codecs.Inverse type limit)
    (hwaits : Waits codecs config type limit stop pc size s rest)
    (hshort : s.writePosition < s.readPosition + size) :
    ∃ first after file, rest = first :: after ∧
      decompressChunk codecs s.file = some file ∧ file.Before codecs type after ∧
      file.writePosition = s.writePosition + first.chunk.length ∧
      file.totalUncompressed = s.file.totalUncompressed := by
  cases rest with
  | nil =>
      have hroom := hwaits.before.room
      have hlegal := hwaits.legal
      simp only [storedBytes, List.map_nil, List.flatten_nil, List.length_nil] at hroom
      unfold State.writePosition at hshort
      omega
  | cons first after =>
      obtain ⟨file, hchunk, hbefore, houtput⟩ :=
        hwaits.before.next hinverse (hwaits.small first List.mem_cons_self)
      refine ⟨first, after, file, rfl, hchunk, hbefore, ?_,
        (decompressChunk_writePosition hchunk).2.2⟩
      simp [Reader.writePosition, State.writePosition, houtput]

/-- What a step within the call does to the write position: nothing, or it publishes the next
chunk, which wakes the consumer up. -/
structure Moved (config : Config) (s next : State) (rest after : List Stored) : Prop where
  read : next.readPosition = s.readPosition
  total : next.file.totalUncompressed = s.file.totalUncompressed
  write : (rest = after ∧ next.writePosition = s.writePosition) ∨
    ∃ first, rest = first :: after ∧
      next.writePosition = s.writePosition + first.chunk.length ∧
      next.asleep config = false

/-- A step changes neither where the wait will end nor where it looks last. -/
theorem Served.moved {after : List Stored} (hserved : Served config stop size s rest)
    (hmoved : Moved config s next rest after) : Served config stop size next after := by
  unfold Served
  rw [hmoved.read, hmoved.total]
  rcases hmoved.write with ⟨rfl, hwrite⟩ | ⟨first, rfl, hwrite, -⟩
  · rw [hwrite]
    exact hserved
  · rw [hwrite]
    rcases hserved with hpublished | ⟨hshort, hstop⟩
    · exact Or.inl (by omega)
    · by_cases hreached : s.readPosition + size ≤ s.writePosition + first.chunk.length
      · exact Or.inl hreached
      · refine Or.inr ⟨?_, hstop⟩
        unfold lastShort at hshort
        simpa only [if_pos (Nat.lt_of_not_le hreached)] using hshort

/-- A read that has its bytes leaves the call. -/
theorem advance_pc (s : State) (bytes : List UInt8) (hrequest : s.pc.request = some size) :
    (advance s bytes).pc ≠ s.pc := by
  cases hpc : s.pc <;> simp only [hpc, Pc.request, reduceCtorEq] at hrequest <;>
    simp only [advance, hpc]
  all_goals repeat' split
  all_goals simp [State.abort]

theorem not_stalled (hstalls : config.allowStalls = true) : s.stalled config = false := by
  simp [State.stalled, hstalls]

/-- A round of the loop, where stalls are allowed. -/
theorem consume_eq (hrequest : s.pc.request = some size)
    (hstalls : config.allowStalls = true) :
    consume codecs config s =
      if s.asleep config then none
      else if size ≤ s.available then some (advance (served s size) (s.bytes size))
      else if s.writePosition + size < s.file.totalUncompressed then
        waitForData codecs config (sleeping s size)
      else some s.abort := by
  unfold consume
  rw [hrequest]
  simp only [not_stalled hstalls, Bool.false_eq_true, if_false]
  rfl

/-- How many steps are left at most: three for a chunk, one for a flag that has to be
stored, one for a look at the write position. -/
def stepsLeft (config : Config) (s : State) (rest : List Stored) : Nat :=
  3 * rest.length + s.storing.toNat + (!s.asleep config).toNat

theorem stepsLeft_bounds (config : Config) (s : State) (rest : List Stored) :
    3 * rest.length + s.storing.toNat ≤ stepsLeft config s rest ∧
      stepsLeft config s rest ≤ 3 * rest.length + s.storing.toNat + 1 :=
  ⟨Nat.le_add_right .., Nat.add_le_add_left (Bool.toNat_le _) _⟩

/-- What a step within the call keeps, and that it comes closer to the end. -/
def Advances (codecs : Codecs) (config : Config) (type : CompressionType)
    (limit stop : Nat) (pc : Pc) (size : Nat) (s next : State) (rest : List Stored) :
    Prop :=
  ∃ after, Waits codecs config type limit stop pc size next after ∧
    Moved config s next rest after ∧ stepsLeft config next after < stepsLeft config s rest

theorem Waits.decompress (hinverse : codecs.Inverse type limit)
    (hwaits : Waits codecs config type limit stop pc size s rest)
    (hthread : config.multithreadedRead = true) (hstoring : s.storing = false)
    (hgoing : s.doneDecompressing = false) {file : Container.Reader}
    (hchunk : decompressChunk codecs s.file = some file) :
    Advances codecs config type limit stop pc size s { s with file := file, storing := true }
      rest := by
  have hsupply := hwaits.thread hthread
  obtain ⟨first, after, rfl, hafter⟩ :=
    hsupply.decompressed hinverse (hsupply.going hstoring hgoing) hchunk
  obtain ⟨file', hchunk', hbefore, houtput⟩ :=
    hwaits.before.next hinverse (hwaits.small first List.mem_cons_self)
  cases hchunk.symm.trans hchunk'
  obtain ⟨hgrows, -, htotal⟩ := decompressChunk_writePosition hchunk
  have hwrite : file.writePosition = s.writePosition + first.chunk.length := by
    simp [Reader.writePosition, State.writePosition, houtput]
  refine ⟨after, ⟨hwaits.pc_eq, hwaits.request, hbefore,
    fun chunk hmem => hwaits.small chunk (List.mem_cons_of_mem _ hmem), ?_,
    hwaits.read_le.trans hgrows, ?_, fun _ => hafter, fun seen hseen => ?_⟩,
    ⟨rfl, htotal, Or.inr ⟨first, rfl, hwrite, ?_⟩⟩, ?_⟩
  · exact htotal ▸ hwaits.total_lt
  · exact htotal ▸ hwaits.legal
  · obtain ⟨hle, hlt, hneeded⟩ := hwaits.asleep seen hseen
    exact ⟨hle.trans hgrows, hlt, hneeded⟩
  · -- a chunk is not empty, so that the write position that was seen is passed
    refine Bool.eq_false_of_not_eq_true fun hasleep => ?_
    simp only [State.asleep, Bool.and_eq_true, decide_eq_true_eq] at hasleep
    have hseen := (hwaits.asleep _ hasleep.2).1
    have hchunk := List.length_pos_iff.mpr first.chunk_ne_nil
    have : file.writePosition ≤ s.writePosition := hseen
    omega
  · have hbefore := (stepsLeft_bounds config s (first :: after)).1
    rw [List.length_cons] at hbefore
    refine (stepsLeft_bounds ..).2.trans_lt ?_
    show 3 * after.length + true.toNat + 1 < _
    rw [Bool.toNat_true]
    omega

theorem Waits.storeDone (hwaits : Waits codecs config type limit stop pc size s rest)
    (hstoring : s.storing = true) :
    Advances codecs config type limit stop pc size s
      { s with
        storing := false
        doneDecompressing := s.doneDecompressing || s.file.doneDecompressing } rest := by
  refine ⟨rest, ⟨hwaits.pc_eq, hwaits.request, hwaits.before, hwaits.small,
    hwaits.total_lt, hwaits.read_le, hwaits.legal,
    fun hthread => (hwaits.thread hthread).stored hstoring, hwaits.asleep⟩,
    ⟨rfl, rfl, Or.inl ⟨rfl, rfl⟩⟩, ?_⟩
  have hsame : State.asleep config { s with
      storing := false
      doneDecompressing := s.doneDecompressing || s.file.doneDecompressing } =
      s.asleep config := rfl
  simp only [stepsLeft, hsame, hstoring, Bool.toNat_true, Bool.toNat_false]
  omega

/-- A look at the write position that has to go on waiting. -/
theorem Waits.slept (hwaits : Waits codecs config type limit stop pc size s rest)
    (hawake : s.asleep config = false) (hmissing : s.available < size)
    (hthread : config.multithreadedRead = true) :
    Advances codecs config type limit stop pc size s (sleeping s size) rest := by
  have hread := hwaits.read_le
  have havailable := hwaits.available
  have hshort : s.writePosition < s.readPosition + size := by omega
  refine ⟨rest, ⟨hwaits.pc_eq, hwaits.request, hwaits.before, hwaits.small,
    hwaits.total_lt, hread, hwaits.legal,
    fun hthread => (hwaits.thread hthread).congr rfl rfl rfl, ?_⟩,
    ⟨rfl, rfl, Or.inl ⟨rfl, rfl⟩⟩, ?_⟩
  · rintro seen ⟨⟩
    exact ⟨le_rfl, hshort, rfl⟩
  · have hasleep : State.asleep config (sleeping s size) = true := by
      simp [State.asleep, hthread, sleeping, State.writePosition]
    have hsame : (sleeping s size).storing = s.storing := rfl
    simp only [stepsLeft, hsame, hasleep, hawake, Bool.not_true, Bool.not_false,
      Bool.toNat_true, Bool.toNat_false]
    omega

/-- The same without the decompressor thread: the consumer decompresses a chunk. -/
theorem Waits.decompressed (hinverse : codecs.Inverse type limit)
    (hwaits : Waits codecs config type limit stop pc size s rest)
    (hmissing : s.available < size) (hthread : config.multithreadedRead = false)
    {file : Container.Reader} (hchunk : decompressChunk codecs s.file = some file) :
    Advances codecs config type limit stop pc size s
      { sleeping s size with
        file := file
        doneDecompressing := s.doneDecompressing || file.doneDecompressing } rest := by
  have hread := hwaits.read_le
  have havailable := hwaits.available
  have hshort : s.writePosition < s.readPosition + size := by omega
  have halone : ¬ config.multithreadedRead = true := by simp [hthread]
  obtain ⟨first, after, file', rfl, hchunk', hbefore, hwrite, htotal⟩ :=
    hwaits.next_chunk hinverse hshort
  cases hchunk.symm.trans hchunk'
  refine ⟨after, ⟨hwaits.pc_eq, hwaits.request, hbefore,
    fun chunk hmem => hwaits.small chunk (List.mem_cons_of_mem _ hmem),
    htotal ▸ hwaits.total_lt, ?_, htotal ▸ hwaits.legal,
    fun h => absurd h halone, ?_⟩,
    ⟨rfl, htotal, Or.inr ⟨first, rfl, hwrite, by simp [State.asleep, hthread]⟩⟩, ?_⟩
  · show s.readPosition ≤ file.writePosition
    omega
  · rintro seen ⟨⟩
    refine ⟨?_, hshort, rfl⟩
    show s.writePosition ≤ file.writePosition
    omega
  · have hbefore := (stepsLeft_bounds config s (first :: after)).1
    rw [List.length_cons] at hbefore
    refine (stepsLeft_bounds ..).2.trans_lt ?_
    show 3 * after.length + s.storing.toNat + 1 < _
    omega

/-- **One step of either thread** while `check_space` runs. -/
theorem Waits.step (hinverse : codecs.Inverse type limit)
    (hstalls : config.allowStalls = true)
    (hwaits : Waits codecs config type limit stop pc size s rest) {label : Label}
    (hstep : step codecs config s label = some next) :
    Advances codecs config type limit stop pc size s next rest ∨
      (next.pc ≠ pc ∧
        (s.readPosition + size ≤ s.writePosition ∨ AssertionFails config s size)) := by
  have hrequest : s.pc.request = some size := by rw [hwaits.pc_eq, hwaits.request]
  cases step_stepped hstep with
  | decompress hthread hstoring hgoing hchunk =>
      exact Or.inl (hwaits.decompress hinverse hthread hstoring hgoing hchunk)
  | storeDone hstoring => exact Or.inl (hwaits.storeDone hstoring)
  | call hidle =>
      rw [hidle] at hrequest
      cases hrequest
  | poll hentered =>
      rw [hentered] at hrequest
      cases hrequest
  | @consume asked _ hasked hawake hconsumed =>
      obtain rfl : size = asked := Option.some.inj (hrequest.symm.trans hasked)
      have hread := hwaits.read_le
      have havailable := hwaits.available
      cases hconsumed with
      | stalled hstalled =>
          rw [not_stalled hstalls] at hstalled
          cases hstalled
      | outside hmissing houtside =>
          refine Or.inr ⟨fun haborted => ?_,
            Or.inr ⟨hawake, not_stalled hstalls, hmissing, houtside⟩⟩
          have hpc : pc = .aborted := haborted.symm
          rw [hwaits.pc_eq, hpc] at hrequest
          cases hrequest
      | served hspace =>
          refine Or.inr ⟨?_, Or.inl (by omega)⟩
          rw [← hwaits.pc_eq]
          exact advance_pc (served s size) (s.bytes size) hrequest
      | slept _ hmissing _ hthread => exact Or.inl (hwaits.slept hawake hmissing hthread)
      | decompressed hmissing _ hthread hchunk =>
          exact Or.inl (hwaits.decompressed hinverse hmissing hthread hchunk)

/-- Where the read gets through, no look fails the assertion. -/
theorem Served.safe (hwaits : Waits codecs config type limit stop pc size s rest)
    (hserved : Served config stop size s rest) : ¬AssertionFails config s size := by
  rintro ⟨-, -, hmissing, hassert⟩
  have hread := hwaits.read_le
  rw [hwaits.available] at hmissing
  rcases hserved with hpublished | ⟨hshort, -⟩
  · omega
  · have := le_lastShort (s.readPosition + size) s.writePosition rest
    omega

/-- The first look at a write position in front of the end of the read. -/
theorem Waits.look (hinverse : codecs.Inverse type limit)
    (hstalls : config.allowStalls = true)
    (hwaits : Waits codecs config type limit stop pc size s rest)
    (hawake : s.asleep config = false) (hshort : s.writePosition < s.readPosition + size)
    (hassert : s.writePosition + size < s.file.totalUncompressed) :
    ∃ next, FileReader.step codecs config s .consume = some next ∧
      Advances codecs config type limit stop pc size s next rest := by
  have hrequest : s.pc.request = some size := by rw [hwaits.pc_eq, hwaits.request]
  have hread := hwaits.read_le
  have havailable := hwaits.available
  obtain ⟨first, after, file, -, hchunk, -⟩ := hwaits.next_chunk hinverse hshort
  obtain ⟨next, hnext⟩ : ∃ next, FileReader.step codecs config s .consume = some next := by
    rw [FileReader.step, consume_eq hrequest hstalls, hawake, if_neg Bool.false_ne_true,
      if_neg (by omega), if_pos hassert]
    unfold FileReader.waitForData
    by_cases hthread : config.multithreadedRead = true
    · rw [if_pos hthread]
      exact ⟨_, rfl⟩
    · rw [if_neg hthread, show (sleeping s size).file = s.file from rfl, hchunk]
      exact ⟨_, rfl⟩
  refine ⟨next, hnext, ?_⟩
  rcases hwaits.step hinverse hstalls hnext with hadvances | ⟨-, hspace | hfails⟩
  · exact hadvances
  · exact absurd hspace (Nat.not_le.mpr hshort)
  · exact absurd hassert hfails.2.2.2

/-- Where the read gets through, the two threads do not block each other: the consumer only
sleeps while the decompressor has a chunk to publish, and it is not throttled then. -/
theorem Served.enabled (hinverse : codecs.Inverse type limit)
    (hstalls : config.allowStalls = true)
    (hwaits : Waits codecs config type limit stop pc size s rest)
    (hserved : Served config stop size s rest) :
    ∃ label next, step codecs config s label = some next := by
  have hrequest : s.pc.request = some size := by rw [hwaits.pc_eq, hwaits.request]
  cases hawake : s.asleep config with
  | true =>
      simp only [State.asleep, Bool.and_eq_true, decide_eq_true_eq] at hawake
      obtain ⟨hthread, hwaiting⟩ := hawake
      obtain ⟨-, hshort, hneeded⟩ := hwaits.asleep _ hwaiting
      have hsupply := hwaits.thread hthread
      cases hstoring : s.storing with
      | true => exact ⟨.storeDone, _, by simp [FileReader.step, storeDone, hstoring]; rfl⟩
      | false =>
          obtain ⟨first, after, file, -, hchunk, -⟩ := hwaits.next_chunk hinverse hshort
          have hgoing : s.doneDecompressing = false := by
            have hflag := hsupply.flag
            rw [hstoring, Bool.not_false, Bool.and_true] at hflag
            rw [hflag]
            refine Bool.eq_false_of_not_eq_true fun hdone => ?_
            have hend := hsupply.finished hdone
            rcases hserved with hpublished | ⟨-, hstop⟩
            · omega
            · have := hstop hthread
              omega
          have hunthrottled : throttled config s = false :=
            throttled_eq_false (by omega)
          refine ⟨.decompress, { s with file := file, storing := true }, ?_⟩
          simp [FileReader.step, FileReader.decompress, hthread, hstoring, hgoing,
            hunthrottled, hchunk]
  | false =>
      by_cases hspace : size ≤ s.available
      · refine ⟨.consume, advance (served s size) (s.bytes size), ?_⟩
        rw [FileReader.step, consume_eq hrequest hstalls, hawake, if_neg Bool.false_ne_true,
          if_pos hspace]
      · have hread := hwaits.read_le
        have havailable := hwaits.available
        have hassert : s.writePosition + size < s.file.totalUncompressed := by
          by_contra hfails
          exact hserved.safe hwaits ⟨hawake, not_stalled hstalls, by omega, hfails⟩
        obtain ⟨next, hnext, -⟩ := hwaits.look hinverse hstalls hawake (by omega) hassert
        exact ⟨.consume, next, hnext⟩

theorem stepAt_eq_some {label : Label} :
    stepAt codecs config pc s label = some next ↔
      s.pc = pc ∧ step codecs config s label = some next := by
  unfold stepAt
  split
  · case _ hpc => simp [hpc]
  · case _ hpc => simp [hpc]

/-- **Within the call**: every state of a run is one in which the call is under way, and the
number of steps is bounded. -/
theorem Waits.run (hinverse : codecs.Inverse type limit)
    (hstalls : config.allowStalls = true)
    (hwaits : Waits codecs config type limit stop pc size s rest) {labels : List Label}
    {t : State} (hrun : exec (stepAt codecs config pc) s labels = some t) :
    labels.length ≤ stepsLeft config s rest + 1 ∧
      (t.pc = pc → ∃ after, Waits codecs config type limit stop pc size t after ∧
        (Served config stop size s rest → Served config stop size t after)) := by
  induction labels generalizing s rest with
  | nil =>
      cases hrun
      exact ⟨Nat.zero_le _, fun _ => ⟨rest, hwaits, id⟩⟩
  | cons label labels ih =>
      obtain ⟨next, hnext, hrest⟩ := exec_cons_eq_some_iff.mp hrun
      obtain ⟨-, hstep⟩ := stepAt_eq_some.mp hnext
      rcases hwaits.step hinverse hstalls hstep with
        ⟨after, hafter, hmoved, hless⟩ | ⟨hleft, -⟩
      · obtain ⟨hlength, hkept⟩ := ih hafter hrest
        refine ⟨?_, fun hpc => ?_⟩
        · rw [List.length_cons]
          omega
        · obtain ⟨last, hlast, hlater⟩ := hkept hpc
          exact ⟨last, hlast, fun hserved => hlater (hserved.moved hmoved)⟩
      · -- the call has been left, and nothing is enabled behind it
        cases labels with
        | nil =>
            cases hrest
            refine ⟨?_, fun hpc => absurd hpc hleft⟩
            simp only [List.length_cons, List.length_nil]
            omega
        | cons more labels =>
            obtain ⟨other, hother, -⟩ := exec_cons_eq_some_iff.mp hrest
            exact absurd (stepAt_eq_some.mp hother).1 hleft

/-- A read that gets through returns. -/
theorem Served.returns (hinverse : codecs.Inverse type limit)
    (hstalls : config.allowStalls = true)
    (hcalled : Called codecs config type limit stop s rest size)
    (hserved : Served config stop size s rest) : Returns codecs config s size := by
  have hwaits := hcalled.waits
  refine ⟨fun labels t hrun hpc => ?_, fun labels t hrun hpc => ?_,
    ⟨stepsLeft config s rest + 1, fun labels t hrun =>
      (hwaits.run hinverse hstalls hrun).1⟩,
    fun labels t label next hrun hpc hstep hleft => ?_⟩
  · obtain ⟨after, hafter, hkept⟩ := (hwaits.run hinverse hstalls hrun).2 hpc
    exact (hkept hserved).safe hafter
  · obtain ⟨after, hafter, hkept⟩ := (hwaits.run hinverse hstalls hrun).2 hpc
    exact (hkept hserved).enabled hinverse hstalls hafter
  · obtain ⟨after, hafter, hkept⟩ := (hwaits.run hinverse hstalls hrun).2 hpc
    rcases hafter.step hinverse hstalls hstep with ⟨last, hlast, -⟩ | ⟨-, hspace | hfails⟩
    · exact absurd hlast.pc_eq hleft
    · exact hspace
    · exact absurd hfails ((hkept hserved).safe hafter)

/-- **A call that returns under every schedule** is one that gets through: the consumer can
look at every chunk boundary in front of the end of the read.  Induction on the steps that
are left; a consumer that sleeps has looked. -/
theorem served_of_returns (hinverse : codecs.Inverse type limit)
    (hstalls : config.allowStalls = true) (n : Nat) (s : State) (rest : List Stored)
    (hleft : stepsLeft config s rest ≤ n)
    (hwaits : Waits codecs config type limit stop pc size s rest)
    (hlooked : s.asleep config = true →
      s.writePosition + size < s.file.totalUncompressed)
    (hsafe : ∀ labels t, exec (stepAt codecs config pc) s labels = some t → t.pc = pc →
      ¬AssertionFails config t size)
    (hprogress : ∀ labels t, exec (stepAt codecs config pc) s labels = some t → t.pc = pc →
      ∃ label next, step codecs config t label = some next) :
    Served config stop size s rest := by
  induction n generalizing s rest with
  | zero =>
      have hbound := (stepsLeft_bounds config s rest).1
      -- no chunk is left, so that the read must be served
      obtain rfl : rest = [] := List.length_eq_zero_iff.mp (by omega)
      refine Or.inl (le_of_not_gt fun hshort => ?_)
      obtain ⟨first, after, file, hcons, -⟩ := hwaits.next_chunk hinverse hshort
      cases hcons
  | succ n ih =>
      by_cases hpublished : s.readPosition + size ≤ s.writePosition
      · exact Or.inl hpublished
      have hshort := Nat.lt_of_not_le hpublished
      have hmissing : s.available < size := by
        have hread := hwaits.read_le
        have havailable := hwaits.available
        omega
      -- a consumer that is awake looks now, and the assertion holds by the hypothesis
      have hassert : s.writePosition + size < s.file.totalUncompressed := by
        cases hawake : s.asleep config with
        | true => exact hlooked hawake
        | false =>
            by_contra hfails
            exact hsafe [] s rfl hwaits.pc_eq
              ⟨hawake, not_stalled hstalls, hmissing, hfails⟩
      -- the schedule goes on with that look, or with any step that is enabled
      obtain ⟨label, next, hstep, after, hafter, hmoved, hless⟩ :
          ∃ label next, step codecs config s label = some next ∧
            Advances codecs config type limit stop pc size s next rest := by
        cases hawake : s.asleep config with
        | false =>
            exact ⟨.consume, hwaits.look hinverse hstalls hawake hshort hassert⟩
        | true =>
            obtain ⟨label, next, hstep⟩ := hprogress [] s rfl hwaits.pc_eq
            refine ⟨label, next, hstep, ?_⟩
            rcases hwaits.step hinverse hstalls hstep with hadvances | ⟨-, hspace | hfails⟩
            · exact hadvances
            · exact absurd hspace hpublished
            · exact absurd hfails.1 (by simp [hawake])
      have hcons : ∀ {labels t}, exec (stepAt codecs config pc) next labels = some t →
          exec (stepAt codecs config pc) s (label :: labels) = some t := fun hrun =>
        exec_cons_eq_some_iff.mpr
          ⟨next, stepAt_eq_some.mpr ⟨hwaits.pc_eq, hstep⟩, hrun⟩
      have hserved : Served config stop size next after := by
        refine ih next after (by omega) hafter (fun hasleep => ?_)
          (fun labels t hrun => hsafe _ t (hcons hrun))
          (fun labels t hrun => hprogress _ t (hcons hrun))
        rcases hmoved.write with ⟨-, hwrite⟩ | ⟨-, -, -, hawake⟩
        · rw [hwrite, hmoved.total]
          exact hassert
        · rw [hawake] at hasleep
          cases hasleep
      unfold Served at hserved
      rw [hmoved.read, hmoved.total] at hserved
      rcases hmoved.write with ⟨rfl, hwrite⟩ | ⟨first, rfl, hwrite, -⟩
      · rw [hwrite] at hserved
        exact hserved
      · rw [hwrite] at hserved
        unfold Served lastShort
        simp only
        -- the chunk that was published ends in front of the read, or serves it
        by_cases hnext : s.writePosition + first.chunk.length < s.readPosition + size
        · rw [if_pos hnext]
          exact Or.inr (hserved.resolve_left (Nat.not_le.mpr hnext))
        · rw [if_neg hnext]
          refine Or.inr ⟨hassert, fun hthread => ?_⟩
          have := (hafter.thread hthread).write_le
          omega

end

/-- **The wait for data.**  Take any stream in any chunks, a decompressor anywhere in it, and
a read that lies in the stream.  Under every schedule `check_space` returns with the bytes
there and without failing its assertion, if and only if the bytes are there when it is
called, or the size of the read added to the last chunk boundary in front of its end stays
below the size of the stream and the decompressor thread does not stop before. -/
theorem check_space_returns_iff (codecs : Codecs) (config : Config) (type : CompressionType)
    (limit stop : Nat) (hinverse : codecs.Inverse type limit)
    (hstalls : config.allowStalls = true) (s : State) (rest : List Stored) (size : Nat)
    (hcalled : Called codecs config type limit stop s rest size) :
    Returns codecs config s size ↔
      s.readPosition + size ≤ s.writePosition ∨
        (lastShort (s.readPosition + size) s.writePosition rest + size <
            s.file.totalUncompressed ∧
          (config.multithreadedRead = true → s.readPosition + size ≤ stop)) := by
  constructor
  · intro hreturns
    refine served_of_returns hinverse hstalls _ s rest le_rfl hcalled.waits
      (fun hasleep => ?_) hreturns.safe hreturns.progress
    rw [State.asleep, hcalled.entered] at hasleep
    simp at hasleep
  · intro hserved
    exact Served.returns hinverse hstalls hcalled hserved

/-- The first three bytes are asked for before anything has been decompressed. -/
theorem check_space_returns_iff_firstBytes :
    ∃ reader s, Container.init splitPacketFile 9 9 = some reader ∧
      exec (step literalCodecs {}) (State.init reader true) [.call (.readArray 3)] = some s ∧
      Returns literalCodecs {} s 3 := by
  refine ⟨_, _, rfl, rfl, ?_⟩
  refine (check_space_returns_iff literalCodecs {} .lz4 12 9 literalCodecs_inverse rfl _
    splitPacket 3 ?_).mpr (by decide +kernel)
  exact called_of_supply rfl rfl
    ⟨⟨rfl, rfl, by decide +kernel, by decide +kernel, by decide +kernel⟩, by decide,
      by decide +kernel, fun _ => by decide +kernel, by decide +kernel⟩
    (by decide +kernel) (by decide +kernel) (by decide +kernel)

/-- The last four bytes of a stream of nine are asked for behind the first chunk: five and
four are not below nine. -/
def lastBytesRun : List Label :=
  [.decompress, .storeDone, .call (.readArray 5), .consume, .call (.readArray 4)]

theorem check_space_fails_at_end :
    ∃ reader s, Container.init splitPacketFile 9 9 = some reader ∧
      exec (step literalCodecs {}) (State.init reader true) lastBytesRun = some s ∧
      Called literalCodecs {} .lz4 12 9 s (splitPacket.drop 1) 4 ∧
      ¬Returns literalCodecs {} s 4 := by
  refine ⟨_, _, rfl, rfl, ?_, fun hreturns => ?_⟩
  · exact called_of_supply rfl rfl
      ⟨⟨rfl, rfl, by decide +kernel, by decide +kernel, by decide +kernel⟩, by decide,
        by decide +kernel, fun _ => by decide +kernel, by decide +kernel⟩
      (by decide +kernel) (by decide +kernel) (by decide +kernel)
  · exact hreturns.safe [] _ rfl rfl (by decide +kernel)

end CheckSpace
end Lavatube
