import Lavatube.FileReader

/-!
# The frame-limited reader

A replay of a frame range gives `file_reader` the position of the first frame
behind the range as `uncompressed_target`, and the decompressor thread stops at
the first chunk boundary at or behind it.  The consumer keeps to the packets that
start before the target.

* `stopPosition` — the boundary at which the decompressor stops.
* `NeverStarves` — a consumer that is blocked will be served, and `done` means that
  everything decompressed has been read.
* `Supply` — what the decompressor has done and what is left for it.
* `never_starves_iff` — the consumer is served in every state of a run exactly when
  no read waits for bytes behind the boundary.  Frames start inside packets, so a
  packet that starts before the target can end behind the boundary.
-/

namespace Lavatube
namespace FrameLimit

open Container FileReader Transition

/-- Where the decompressor stops: the first chunk boundary at or behind the wanted
position, or the end of the stream. -/
def stopPosition (wanted : Nat) (position : Nat) : List Stored → Nat
  | [] => position
  | first :: rest =>
      let next := position + first.chunk.length
      if rest = [] ∨ wanted ≤ next then next else stopPosition wanted next rest

theorem le_stopPosition (wanted position : Nat) (stored : List Stored) :
    position ≤ stopPosition wanted position stored := by
  induction stored generalizing position with
  | nil => exact le_rfl
  | cons first rest ih =>
      unfold stopPosition
      simp only
      split
      · exact Nat.le_add_right ..
      · exact (Nat.le_add_right ..).trans (ih _)

/-- The steps of a consumer that stays within the packets of the stream that start
before the target: it reads headers only of such packets, and nothing behind the
end of the packet that is open. -/
def within (s : State) : Label → Bool
  | .consume =>
      match s.pc with
      | .packetType => s.packetStart < s.file.uncompressedWanted
      | .packetSize _ =>
          s.packetStart < s.file.uncompressedWanted ∧
            (4 ≤ s.available → s.packetStart + LittleEndian.decode (s.bytes 4) ≤
              s.file.totalUncompressed)
      | pc => pc.request.all fun size =>
          s.packetOpen && s.readPosition + size ≤ s.packetEnd
  | _ => true

/-- One step of either thread, with such a consumer. -/
def stepWithin (codecs : Codecs) (config : Config) (s : State) (label : Label) :
    Option State :=
  if within s label then step codecs config s label else none

/-- The consumer is blocked in `check_space` with a request for `size` bytes. -/
def Blocked (config : Config) (s : State) (size : Nat) : Prop :=
  config.multithreadedRead = true ∧ s.pc.request = some size ∧
    s.waiting.isSome = true ∧ s.available < size

/-- The steps of the decompressor thread. -/
def Label.ofDecompressor (label : Label) : Prop :=
  label = .decompress ∨ label = .storeDone

/-- A blocked consumer with unread data in the file is served by a decompressor
that has not terminated, and `done` only answers yes when everything that was
decompressed has been read. -/
structure NeverStarves (codecs : Codecs) (config : Config) (s : State) : Prop where
  served : ∀ size, Blocked config s size → 0 < s.file.totalLeft →
    s.doneDecompressing = false ∧
      ∃ labels next, (∀ label ∈ labels, Label.ofDecompressor label) ∧
        exec (step codecs config) s labels = some next ∧
        s.readPosition + size ≤ next.writePosition
  done_read : s.pc ≠ .aborted → s.done = true → s.readPosition = s.writePosition

/-- The look of `check_space` at `write_position` sends the consumer to sleep. -/
def Waits (config : Config) (s : State) (size : Nat) : Prop :=
  config.multithreadedRead = true ∧ s.pc.request = some size ∧
    s.asleep config = false ∧ s.stalled config = false ∧ s.available < size ∧
    s.writePosition + size < s.file.totalUncompressed

/-- A read that has to wait ends at or before the boundary at which the
decompressor stops. -/
def StaysBelow (config : Config) (stop : Nat) (s : State) (label : Label) : Prop :=
  label = .consume → ∀ size, Waits config s size → s.readPosition + size ≤ stop

/-! ## The decompressor -/

/-- What the decompressor has done and what is left for it: the chunks `rest` are
still compressed, and it will stop at `stop`. -/
structure Supply (codecs : Codecs) (type : CompressionType) (limit stop : Nat)
    (s : State) (rest : List Stored) : Prop where
  before : s.file.Before codecs type rest
  small : ∀ chunk ∈ rest, chunk.chunk.length ≤ limit
  finished : s.file.doneDecompressing = true → s.writePosition = stop
  running : s.file.doneDecompressing = false →
    stopPosition s.file.uncompressedWanted s.writePosition rest = stop
  flag : s.doneDecompressing = (s.file.doneDecompressing && !s.storing)

section

variable {codecs : Codecs} {config : Config} {type : CompressionType} {limit stop : Nat}
variable {s next : State} {rest : List Stored}

theorem Supply.write_le (hsupply : Supply codecs type limit stop s rest) :
    s.writePosition ≤ stop := by
  cases hdone : s.file.doneDecompressing with
  | true => exact (hsupply.finished hdone).le
  | false =>
      rw [← hsupply.running hdone]
      exact le_stopPosition ..

/-- The decompressor that goes on has not come to its boundary. -/
theorem Supply.going (hsupply : Supply codecs type limit stop s rest)
    (hstoring : s.storing = false) (hgoing : s.doneDecompressing = false) :
    s.file.doneDecompressing = false := by
  have hflag := hsupply.flag
  rw [hgoing, hstoring] at hflag
  simpa using hflag.symm

/-- The next chunk, while the decompressor has not come to its boundary. -/
theorem Supply.decompressed (hinverse : codecs.Inverse type limit)
    (hsupply : Supply codecs type limit stop s rest)
    (hrunning : s.file.doneDecompressing = false)
    {file : Container.Reader} (hchunk : decompressChunk codecs s.file = some file) :
    ∃ first after, rest = first :: after ∧
      Supply codecs type limit stop { s with file := file, storing := true } after := by
  cases rest with
  | nil =>
      have hinput := hsupply.before.input
      simp only [List.map_nil, List.flatten_nil] at hinput
      unfold decompressChunk at hchunk
      rw [hinput, if_neg (by simp)] at hchunk
      cases hchunk
  | cons first after =>
      obtain ⟨file', hchunk', hbefore, houtput⟩ :=
        hsupply.before.next hinverse (hsupply.small first (by simp))
      rw [hchunk] at hchunk'
      cases hchunk'
      obtain ⟨-, -, hwanted, hdone⟩ := decompressChunk_members hchunk
      rw [hrunning, Bool.false_or] at hdone
      have hwrite : file.writePosition = s.writePosition + first.chunk.length := by
        simp [Reader.writePosition, State.writePosition, houtput]
      have hstop := hsupply.running hrunning
      unfold stopPosition at hstop
      simp only at hstop
      simp only [hbefore.totalLeft_eq_zero_iff, hwrite, hwanted, ge_iff_le] at hdone
      refine ⟨first, after, rfl, hbefore,
        fun chunk hmem => hsupply.small chunk (List.mem_cons_of_mem _ hmem), ?_, ?_, ?_⟩
      · intro hfinished
        rw [hdone, decide_eq_true_eq] at hfinished
        rw [if_pos hfinished] at hstop
        exact hwrite.trans hstop
      · intro hgoing
        rw [hdone, decide_eq_false_iff_not] at hgoing
        rw [if_neg hgoing] at hstop
        show stopPosition file.uncompressedWanted file.writePosition after = stop
        rw [hwanted, hwrite]
        exact hstop
      · show s.doneDecompressing = (file.doneDecompressing && !true)
        rw [hsupply.flag, hrunning]
        simp

/-- The end of `decompress_chunk`. -/
theorem Supply.stored (hsupply : Supply codecs type limit stop s rest)
    (hstoring : s.storing = true) :
    Supply codecs type limit stop
      { s with
        storing := false
        doneDecompressing := s.doneDecompressing || s.file.doneDecompressing } rest := by
  refine ⟨hsupply.before, hsupply.small, hsupply.finished, hsupply.running, ?_⟩
  show (s.doneDecompressing || s.file.doneDecompressing) = _
  rw [hsupply.flag, hstoring]
  simp

theorem throttled_eq_false {config : Config} (hneeded : s.writePosition < s.neededWritePosition) :
    throttled config s = false := by
  unfold throttled
  simp only [decide_eq_false_iff_not]
  omega

/-- **The decompressor serves a blocked consumer.**  As long as the requested
position is published and not behind the boundary, the decompressor is not throttled
and reaches the position.  Induction on the chunks that are left. -/
theorem Supply.serves (hinverse : codecs.Inverse type limit)
    (hthread : config.multithreadedRead = true) {position : Nat}
    (hstop : position ≤ stop) (rest : List Stored) (s : State)
    (hsupply : Supply codecs type limit stop s rest)
    (hneeded : position ≤ s.neededWritePosition) :
    ∃ labels next, (∀ label ∈ labels, Label.ofDecompressor label) ∧
      exec (step codecs config) s labels = some next ∧ position ≤ next.writePosition := by
  induction rest generalizing s with
  | nil =>
      -- nothing is left, so the write position is the boundary
      refine ⟨[], s, by simp, rfl, ?_⟩
      cases hdone : s.file.doneDecompressing with
      | true => exact hstop.trans (hsupply.finished hdone).ge
      | false => exact hstop.trans (hsupply.running hdone).ge
  | cons first after ih =>
      by_cases hreached : position ≤ s.writePosition
      · exact ⟨[], s, by simp, rfl, hreached⟩
      have hrunning : s.file.doneDecompressing = false := by
        by_contra hdone
        have := hsupply.finished (by simpa using hdone)
        omega
      -- the flag of a chunk that was published before is stored first
      obtain ⟨labels₀, s₀, hlabels₀, hexec₀, hfile₀, hneeded₀, hstoring₀, hsupply₀⟩ :
          ∃ labels s', (∀ label ∈ labels, Label.ofDecompressor label) ∧
            exec (step codecs config) s labels = some s' ∧ s'.file = s.file ∧
            s'.neededWritePosition = s.neededWritePosition ∧ s'.storing = false ∧
            Supply codecs type limit stop s' (first :: after) := by
        cases hstoring : s.storing with
        | false => exact ⟨[], s, by simp, rfl, rfl, rfl, hstoring, hsupply⟩
        | true =>
            refine ⟨[.storeDone], { s with
                storing := false
                doneDecompressing := s.doneDecompressing || s.file.doneDecompressing },
              by simp [Label.ofDecompressor], ?_, rfl, rfl, rfl, hsupply.stored hstoring⟩
            simp [exec, step, storeDone, hstoring]
      obtain ⟨file, hchunk, -, -⟩ :=
        hsupply₀.before.next hinverse (hsupply₀.small first (by simp))
      obtain ⟨first', after', hrest, hsupply₁⟩ :=
        hsupply₀.decompressed hinverse (hfile₀ ▸ hrunning) hchunk
      cases hrest
      have hgoing : s₀.doneDecompressing = false := by
        rw [hsupply₀.flag, hfile₀, hrunning, Bool.false_and]
      have hwrite₀ : s₀.writePosition < s₀.neededWritePosition := by
        have : s₀.writePosition = s.writePosition := by
          unfold State.writePosition
          rw [hfile₀]
        omega
      have hstep : step codecs config s₀ .decompress =
          some { s₀ with file := file, storing := true } := by
        have hunthrottled : throttled config s₀ = false := throttled_eq_false hwrite₀
        simp only [step, FileReader.decompress, hthread, hstoring₀, hgoing, hunthrottled,
          hchunk]
        simp
      obtain ⟨labels₂, s₂, hlabels₂, hexec₂, hreach₂⟩ :=
        ih { s₀ with file := file, storing := true } hsupply₁ (by
          show position ≤ s₀.neededWritePosition
          omega)
      refine ⟨labels₀ ++ .decompress :: labels₂, s₂, ?_, ?_, hreach₂⟩
      · intro label hlabel
        rcases List.mem_append.mp hlabel with hlabel | hlabel
        · exact hlabels₀ label hlabel
        · rcases List.mem_cons.mp hlabel with rfl | hlabel
          · exact Or.inl rfl
          · exact hlabels₂ label hlabel
      · exact exec_append_eq_some_iff.mpr
          ⟨s₀, hexec₀, exec_cons_eq_some_iff.mpr ⟨_, hstep, hexec₂⟩⟩

end

/-! ## The consumer -/

/-- The places of the consumer between two packets, on the way to the next one. -/
def Pc.between : Pc → Bool
  | .entered | .packetType | .packetSize _ => true
  | _ => false

/-- The consumer and its requests: it stays inside the stream, and a request that
was put to sleep is published and ends at or before the boundary. -/
structure Limited (config : Config) (total stop : Nat) (s : State) : Prop where
  total_eq : s.file.totalUncompressed = total
  write_le : s.writePosition ≤ total
  read_le : s.pc ≠ .aborted → s.readPosition ≤ total
  open_le : s.pc ≠ .aborted → s.packetOpen = true →
    s.readPosition ≤ s.packetEnd ∧ s.packetEnd ≤ total
  closed : Pc.between s.pc = true → s.packetOpen = false
  header : ∀ packetType, s.pc = .packetSize packetType →
    s.readPosition = s.packetStart + 1
  typed : s.pc = .packetType → s.readPosition = s.packetStart
  rested : s.pc ≠ .aborted → s.pc.request = none → s.waiting = none
  asked : config.multithreadedRead = true → ∀ size, s.pc.request = some size →
    s.waiting.isSome = true →
      s.neededWritePosition = s.readPosition + size ∧ s.readPosition + size ≤ stop

section

variable {codecs : Codecs} {config : Config} {total stop : Nat} {s next : State}

/-- After an abort only the decompressor goes on. -/
theorem limited_abort (htotal : s.file.totalUncompressed = total)
    (hwrite : s.writePosition ≤ total) : Limited config total stop s.abort where
  total_eq := htotal
  write_le := hwrite
  read_le := fun hpc => (hpc rfl).elim
  open_le := fun hpc => (hpc rfl).elim
  closed := fun hpc => by cases hpc
  header := fun _ hpc => by cases hpc
  typed := fun hpc => by cases hpc
  rested := fun hpc => (hpc rfl).elim
  asked := fun _ _ hpc => by cases hpc

theorem Limited.abort (hlimited : Limited config total stop s) :
    Limited config total stop s.abort :=
  limited_abort hlimited.total_eq hlimited.write_le

/-- A state whose consumer is the same but for the members of the decompressor and
the flags that the consumer does not use. -/
theorem Limited.file (hlimited : Limited config total stop s)
    {file : Container.Reader} {storing doneDecompressing : Bool}
    (htotal : file.totalUncompressed = s.file.totalUncompressed)
    (hwrite : file.writePosition ≤ s.file.totalUncompressed) :
    Limited config total stop { s with
      file := file, storing := storing, doneDecompressing := doneDecompressing } where
  total_eq := htotal.trans hlimited.total_eq
  write_le := hwrite.trans hlimited.total_eq.le
  read_le := hlimited.read_le
  open_le := hlimited.open_le
  closed := hlimited.closed
  header := hlimited.header
  typed := hlimited.typed
  rested := hlimited.rested
  asked := hlimited.asked

theorem completePacket_limited (hlimited : Limited config total stop s)
    (hidle : s.pc = .idle) :
    Limited config total stop (completePacket s) ∧
      (completePacket s).packetOpen = false ∧ (completePacket s).pc = .idle := by
  have hlive : s.pc ≠ .aborted := by simp [hidle]
  unfold completePacket
  cases hopen : s.packetOpen with
  | false => exact ⟨hlimited, hopen, hidle⟩
  | true =>
      obtain ⟨hread, hend⟩ := hlimited.open_le hlive hopen
      rw [if_pos rfl, if_neg (by omega)]
      refine ⟨?_, rfl, hidle⟩
      constructor
      · exact hlimited.total_eq
      · exact hlimited.write_le
      · exact fun _ => hend
      · exact fun _ h => by cases h
      · exact fun _ => rfl
      · intro packetType hpc
        exact absurd (hidle.symm.trans hpc) (by simp)
      · intro hpc
        exact absurd (hidle.symm.trans hpc) (by simp)
      · exact hlimited.rested
      · intro _ size hpc
        have hnone : s.pc.request = none := by rw [hidle]; rfl
        exact absurd (hnone.symm.trans hpc) (by simp)

/-- `release_checkpoint` only moves the checkpoint and what is freed, or aborts. -/
theorem releaseCheckpoint_cases (config : Config) (s : State) :
    releaseCheckpoint config s = s.abort ∨
      ∃ freed checkpoint, releaseCheckpoint config s =
        { s with freedPosition := freed, checkpointPosition := checkpoint } := by
  unfold releaseCheckpoint
  split
  · exact Or.inr ⟨s.freedPosition, s.checkpointPosition, rfl⟩
  · split
    · simp only
      split
      · exact Or.inl rfl
      · split
        · split
          · exact Or.inr ⟨_, _, rfl⟩
          · exact Or.inl rfl
        · exact Or.inr ⟨s.freedPosition, _, rfl⟩
    · exact Or.inl rfl

theorem releaseCheckpoint_limited (hlimited : Limited config total stop s) :
    Limited config total stop (releaseCheckpoint config s) := by
  rcases releaseCheckpoint_cases config s with hrelease | ⟨freed, checkpoint, hrelease⟩
  · rw [hrelease]
    exact hlimited.abort
  · rw [hrelease]
    exact ⟨hlimited.total_eq, hlimited.write_le, hlimited.read_le, hlimited.open_le,
      hlimited.closed, hlimited.header, hlimited.typed, hlimited.rested, hlimited.asked⟩

/-- A call from `idle` that goes on to read, or to look for the next packet. -/
theorem Limited.goto (hlimited : Limited config total stop s) (hidle : s.pc = .idle)
    {pc : Pc} (hlater : ∀ packetType, pc ≠ .packetSize packetType)
    (htype : pc ≠ .packetType)
    (hbetween : Pc.between pc = true → s.packetOpen = false) :
    Limited config total stop { s with pc := pc } := by
  have hlive : s.pc ≠ .aborted := by simp [hidle]
  have hrested : s.waiting = none := hlimited.rested hlive (by rw [hidle]; rfl)
  constructor
  · exact hlimited.total_eq
  · exact hlimited.write_le
  · exact fun _ => hlimited.read_le hlive
  · exact fun _ => hlimited.open_le hlive
  · exact hbetween
  · exact fun packetType hpc => (hlater packetType hpc).elim
  · exact fun hpc => (htype hpc).elim
  · exact fun _ _ => hrested
  · intro _ size _ hwaiting
    simp [hrested] at hwaiting

theorem start_limited (hlimited : Limited config total stop s) (hidle : s.pc = .idle)
    (call : Call) : Limited config total stop (start config s call) := by
  cases call with
  | step =>
      obtain ⟨hcompleted, hclosed, hpc⟩ := completePacket_limited hlimited hidle
      simp only [start]
      rw [if_neg (by simp [hpc])]
      exact hcompleted.goto hpc (by simp) (by simp) fun _ => hclosed
  | completePacket => exact (completePacket_limited hlimited hidle).1
  | setCheckpoint =>
      exact ⟨hlimited.total_eq, hlimited.write_le, hlimited.read_le, hlimited.open_le,
        hlimited.closed, hlimited.header, hlimited.typed, hlimited.rested, hlimited.asked⟩
  | releaseCheckpoint => exact releaseCheckpoint_limited hlimited
  | readValue width => exact hlimited.goto hidle (by simp) (by simp) (by simp [Pc.between])
  | readArray size => exact hlimited.goto hidle (by simp) (by simp) (by simp [Pc.between])
  | readPatch maxsize => exact hlimited.goto hidle (by simp) (by simp) (by simp [Pc.between])
  | readString => exact hlimited.goto hidle (by simp) (by simp) (by simp [Pc.between])

theorem poll_limited (hlimited : Limited config total stop s) (hentered : s.pc = .entered)
    (stopped : Bool) : Limited config total stop (poll config s stopped) := by
  have hlive : s.pc ≠ .aborted := by simp [hentered]
  have hclosed : s.packetOpen = false := hlimited.closed (by rw [hentered]; rfl)
  have hrested : s.waiting = none := hlimited.rested hlive (by rw [hentered]; rfl)
  unfold poll
  split
  · constructor
    · exact hlimited.total_eq
    · exact hlimited.write_le
    · exact fun _ => hlimited.read_le hlive
    · exact fun _ => hlimited.open_le hlive
    · exact fun h => by cases h
    · exact fun _ h => by cases h
    · exact fun h => by cases h
    · exact fun _ _ => hrested
    · exact fun _ _ h => by cases h
  · rcases releaseCheckpoint_cases config s with hrelease | ⟨freed, checkpoint, hrelease⟩
    · simp only [hrelease]
      rw [if_pos (show s.abort.pc = .aborted from rfl)]
      exact hlimited.abort
    · simp only [hrelease]
      rw [if_neg hlive]
      constructor
      · exact hlimited.total_eq
      · exact hlimited.write_le
      · exact fun _ => hlimited.read_le hlive
      · exact fun _ => hlimited.open_le hlive
      · exact fun _ => hclosed
      · exact fun _ h => by cases h
      · exact fun _ => rfl
      · exact fun _ _ => hrested
      · intro _ size _ hwaiting
        simp [hrested] at hwaiting

/-- What becomes of a read that has got its bytes: the two reads of a packet header,
and all the others, which stay inside their packet. -/
theorem advance_cases {size : Nat} (s : State) (bytes : List UInt8)
    (hrequest : s.pc.request = some size) :
    advance s bytes = s.abort ∨
      (s.pc = .packetType ∧ bytes.headD 0 ≠ 0 ∧
        advance s bytes = { s with pc := .packetSize (bytes.headD 0) }) ∨
      (∃ type, s.pc = .packetSize type ∧ 5 ≤ LittleEndian.decode bytes ∧
        advance s bytes = { s with
          packetSize := LittleEndian.decode bytes
          packetEnd := s.packetStart + LittleEndian.decode bytes
          packetType := type
          packetOpen := true
          pc := .idle }) ∨
      (Pc.between s.pc = false ∧ ∃ pc, Pc.between pc = false ∧
        advance s bytes = { s with pc := pc }) := by
  cases hpc : s.pc with
  | idle | entered | aborted => simp [hpc, Pc.request] at hrequest
  | value width | array size =>
      simp only [advance, hpc]
      exact Or.inr (Or.inr (Or.inr ⟨rfl, .idle, rfl, rfl⟩))
  | packetType =>
      simp only [advance, hpc]
      split
      · case _ hnonzero => exact Or.inr (Or.inl ⟨trivial, hnonzero, rfl⟩)
      · exact Or.inl rfl
  | packetSize type =>
      simp only [advance, hpc]
      split
      · exact Or.inl rfl
      · exact Or.inr (Or.inr (Or.inl ⟨type, rfl, by omega, rfl⟩))
  | patchOffset maxsize position =>
      simp only [advance, hpc]
      split
      · exact Or.inr (Or.inr (Or.inr ⟨rfl, _, rfl, rfl⟩))
      · exact Or.inl rfl
  | patchSize maxsize position offset =>
      simp only [advance, hpc]
      exact Or.inr (Or.inr (Or.inr ⟨rfl, _, rfl, rfl⟩))
  | patchBytes maxsize position offset size =>
      simp only [advance, hpc]
      split
      · split
        · exact Or.inr (Or.inr (Or.inr ⟨rfl, .idle, rfl, rfl⟩))
        · exact Or.inr (Or.inr (Or.inr ⟨rfl, .patchOffset _ _, rfl, rfl⟩))
      · exact Or.inl rfl
  | stringLength =>
      simp only [advance, hpc]
      split
      · exact Or.inr (Or.inr (Or.inr ⟨rfl, .array _, rfl, rfl⟩))
      · exact Or.inr (Or.inr (Or.inr ⟨rfl, .idle, rfl, rfl⟩))

/-- The state of a read that has been let through, before it uses its bytes. -/
def served (s : State) (size : Nat) : State :=
  { s with
    neededWritePosition := if s.waiting.isSome then 0 else s.neededWritePosition
    waiting := none
    readPosition := s.readPosition + size }

/-- The state of a read that has been put to sleep. -/
def sleeping (s : State) (size : Nat) : State :=
  { s with
    neededWritePosition := s.readPosition + size
    waiting := some s.writePosition }

/-- Behind the write position there are only zeroes. -/
theorem bytes_behind (hbehind : s.writePosition ≤ s.readPosition) :
    (s.bytes 1).headD 0 = 0 := by
  have hempty : s.file.output.drop s.readPosition = [] := List.drop_eq_nil_of_le hbehind
  unfold State.bytes
  rw [hempty]
  rfl

/-- A read that belongs to no header stays inside the open packet. -/
theorem within_packet {size : Nat} (hwithin : within s .consume = true)
    (hrequest : s.pc.request = some size) (hplace : Pc.between s.pc = false) :
    s.packetOpen = true ∧ s.readPosition + size ≤ s.packetEnd := by
  have hall : s.pc.request.all (fun size =>
      s.packetOpen && s.readPosition + size ≤ s.packetEnd) = true := by
    simp only [within] at hwithin
    split at hwithin
    · case _ hpc =>
        rw [hpc] at hplace
        cases hplace
    · case _ hpc =>
        rw [hpc] at hplace
        cases hplace
    · exact hwithin
  rw [hrequest] at hall
  simpa using hall

/-- A read that is let through keeps the consumer inside the stream. -/
theorem served_limited (hlimited : Limited config total stop s) {size : Nat}
    (hrequest : s.pc.request = some size) (hspace : size ≤ s.available)
    (hwithin : within s .consume = true) :
    Limited config total stop (advance (served s size) (s.bytes size)) := by
  have hlive : s.pc ≠ .aborted := by
    intro hpc
    simp [hpc, Pc.request] at hrequest
  have hread := hlimited.read_le hlive
  have hwrite := hlimited.write_le
  -- everything but the consumer's place is as it was
  have hmove : ∀ pc packetSize packetEnd type packetOpen,
      pc ≠ .aborted →
      s.readPosition + size ≤ total →
      (packetOpen = true → s.readPosition + size ≤ packetEnd ∧ packetEnd ≤ total) →
      (Pc.between pc = true → packetOpen = false) →
      (∀ type, pc = .packetSize type → s.readPosition + size = s.packetStart + 1) →
      pc ≠ .packetType →
      Limited config total stop { served s size with
        packetSize := packetSize, packetEnd := packetEnd, packetType := type,
        packetOpen := packetOpen, pc := pc } := by
    intro pc packetSize packetEnd type packetOpen _ hinside hopen hclosed hheader htyped
    exact ⟨hlimited.total_eq, hwrite, fun _ => hinside, fun _ => hopen, hclosed, hheader,
      fun h => (htyped h).elim, fun _ _ => rfl, (fun _ _ _ h => by cases h)⟩
  have haborted : Limited config total stop (served s size).abort :=
    limited_abort hlimited.total_eq hwrite
  rcases advance_cases (served s size) (s.bytes size) hrequest with
    habort | ⟨hpc, htype, hnext⟩ | ⟨type, hpc, hsize, hnext⟩ | ⟨hplace, pc, hpc, hnext⟩
  · rw [habort]
    exact haborted
  · -- a type byte that is not zero lies before the write position
    have hpc' : s.pc = .packetType := hpc
    have hone : size = 1 := by
      rw [hpc'] at hrequest
      exact (Option.some.inj hrequest).symm
    subst hone
    have hbefore : s.readPosition < s.writePosition := by
      by_contra hbehind
      exact htype (bytes_behind (by omega))
    rw [hnext]
    refine hmove _ s.packetSize s.packetEnd s.packetType s.packetOpen (by simp) (by omega)
      (fun hopen => ?_) (fun _ => ?_) (fun _ _ => ?_) (by simp)
    · have := hlimited.closed (by rw [hpc']; rfl)
      rw [this] at hopen
      cases hopen
    · exact hlimited.closed (by rw [hpc']; rfl)
    · rw [hlimited.typed hpc']
  · have hpc' : s.pc = .packetSize type := hpc
    have hfour : size = 4 := by
      rw [hpc'] at hrequest
      exact (Option.some.inj hrequest).symm
    subst hfour
    have hstart := hlimited.header type hpc'
    have hend : s.packetStart + LittleEndian.decode (s.bytes 4) ≤ total := by
      rw [within, hpc'] at hwithin
      simp only [Bool.decide_and, Bool.and_eq_true, decide_eq_true_eq] at hwithin
      exact (hwithin.2 hspace).trans hlimited.total_eq.le
    rw [hnext]
    refine hmove _ _ _ _ _ (by simp) (by omega) (fun _ => ⟨?_, hend⟩) (fun h => by cases h)
      (fun _ h => by cases h) (by simp)
    show s.readPosition + 4 ≤ s.packetStart + LittleEndian.decode (s.bytes 4)
    omega
  · have hplace' : Pc.between s.pc = false := hplace
    obtain ⟨hopen, hinside⟩ := within_packet hwithin hrequest hplace'
    have hend := (hlimited.open_le hlive hopen).2
    rw [hnext]
    by_cases hpc' : pc = .aborted
    · subst hpc'
      exact haborted
    · refine hmove pc s.packetSize s.packetEnd s.packetType s.packetOpen hpc' (by omega)
        (fun _ => ⟨hinside, hend⟩) (fun h => ?_) (fun type h => ?_) (fun h => ?_)
      · rw [hpc] at h
        cases h
      · rw [h] at hpc
        cases hpc
      · rw [h] at hpc
        cases hpc

/-- A read that is put to sleep publishes what it needs. -/
theorem sleeping_limited (hlimited : Limited config total stop s) {size : Nat}
    (hrequest : s.pc.request = some size)
    (hbelow : config.multithreadedRead = true → s.readPosition + size ≤ stop) :
    Limited config total stop (sleeping s size) := by
  have hlive : s.pc ≠ .aborted := by
    intro hpc
    simp [hpc, Pc.request] at hrequest
  refine ⟨hlimited.total_eq, hlimited.write_le, fun _ => hlimited.read_le hlive,
    fun _ => hlimited.open_le hlive, hlimited.closed, hlimited.header, hlimited.typed,
    fun _ hnone => ?_, fun hthread other hother _ => ?_⟩
  · have hnone' : s.pc.request = none := hnone
    rw [hrequest] at hnone'
    cases hnone'
  · have hsame : s.pc.request = some other := hother
    rw [hrequest] at hsame
    cases hsame
    exact ⟨rfl, hbelow hthread⟩

end

/-! ## Runs of both threads -/

/-- Both threads: the consumer inside the stream, and the decompressor on its way to
the boundary. -/
structure Inv (codecs : Codecs) (config : Config) (type : CompressionType)
    (limit total stop : Nat) (s : State) : Prop where
  limited : Limited config total stop s
  supply : config.multithreadedRead = true → ∃ rest, Supply codecs type limit stop s rest

section

variable {codecs : Codecs} {config : Config} {type : CompressionType}
variable {limit total stop : Nat} {s next : State}

/-- The decompressor does not look at the members of the consumer. -/
theorem Supply.congr {rest : List Stored} (hsupply : Supply codecs type limit stop s rest)
    (hfile : next.file = s.file) (hstoring : next.storing = s.storing)
    (hdone : next.doneDecompressing = s.doneDecompressing) :
    Supply codecs type limit stop next rest := by
  have hwrite : next.writePosition = s.writePosition := by
    unfold State.writePosition
    rw [hfile]
  refine ⟨hfile ▸ hsupply.before, hsupply.small, ?_, ?_, ?_⟩
  · rw [hfile, hwrite]
    exact hsupply.finished
  · rw [hfile, hwrite]
    exact hsupply.running
  · rw [hdone, hfile, hstoring]
    exact hsupply.flag

/-- The members that only the decompressor writes. -/
def decompressorPart (s : State) : Container.Reader × Bool × Bool :=
  (s.file, s.storing, s.doneDecompressing)

theorem Inv.consumer (hinv : Inv codecs config type limit total stop s)
    (hlimited : Limited config total stop next)
    (hsame : decompressorPart next = decompressorPart s) :
    Inv codecs config type limit total stop next := by
  simp only [decompressorPart, Prod.mk.injEq] at hsame
  refine ⟨hlimited, fun hthread => ?_⟩
  obtain ⟨rest, hsupply⟩ := hinv.supply hthread
  exact ⟨rest, hsupply.congr hsame.1 hsame.2.1 hsame.2.2⟩

theorem advance_decompressorPart (s : State) (bytes : List UInt8) :
    decompressorPart (advance s bytes) = decompressorPart s := by
  cases hpc : s.pc <;> simp only [advance, hpc]
  all_goals repeat' split
  all_goals rfl

theorem releaseCheckpoint_decompressorPart (config : Config) (s : State) :
    decompressorPart (releaseCheckpoint config s) = decompressorPart s := by
  rcases releaseCheckpoint_cases config s with hrelease | ⟨freed, checkpoint, hrelease⟩
  · rw [hrelease]
    rfl
  · rw [hrelease]
    rfl

theorem completePacket_decompressorPart (s : State) :
    decompressorPart (completePacket s) = decompressorPart s := by
  unfold completePacket
  split
  · split
    · rfl
    · rfl
  · rfl

theorem start_decompressorPart (config : Config) (s : State) (call : Call) :
    decompressorPart (start config s call) = decompressorPart s := by
  cases call with
  | step =>
      simp only [start]
      split
      · exact completePacket_decompressorPart s
      · exact completePacket_decompressorPart s
  | completePacket => exact completePacket_decompressorPart s
  | releaseCheckpoint => exact releaseCheckpoint_decompressorPart config s
  | setCheckpoint | readValue _ | readArray _ | readPatch _ | readString => rfl

theorem poll_decompressorPart (config : Config) (s : State) (stopped : Bool) :
    decompressorPart (poll config s stopped) = decompressorPart s := by
  unfold poll
  split
  · rfl
  · simp only
    split
    · exact releaseCheckpoint_decompressorPart config s
    · exact releaseCheckpoint_decompressorPart config s

theorem Inv.decompress (hinverse : codecs.Inverse type limit)
    (hinv : Inv codecs config type limit total stop s)
    (hthread : config.multithreadedRead = true) (hstoring : s.storing = false)
    (hgoing : s.doneDecompressing = false) {file : Container.Reader}
    (hchunk : decompressChunk codecs s.file = some file) :
    Inv codecs config type limit total stop { s with file := file, storing := true } := by
  obtain ⟨-, hwrite, htotal⟩ := decompressChunk_writePosition hchunk
  obtain ⟨rest, hsupply⟩ := hinv.supply hthread
  obtain ⟨first, after, -, hafter⟩ :=
    hsupply.decompressed hinverse (hsupply.going hstoring hgoing) hchunk
  exact ⟨hinv.limited.file htotal (htotal ▸ hwrite), fun _ => ⟨after, hafter⟩⟩

theorem Inv.storeDone (hinv : Inv codecs config type limit total stop s)
    (hstoring : s.storing = true) :
    Inv codecs config type limit total stop
      { s with
        storing := false
        doneDecompressing := s.doneDecompressing || s.file.doneDecompressing } := by
  refine ⟨hinv.limited.file rfl ?_, fun hthread => ?_⟩
  · exact hinv.limited.write_le.trans hinv.limited.total_eq.ge
  · obtain ⟨rest, hsupply⟩ := hinv.supply hthread
    exact ⟨rest, hsupply.stored hstoring⟩

theorem Inv.consumed {size : Nat} (hinv : Inv codecs config type limit total stop s)
    (hwithin : within s .consume = true) (hbelow : StaysBelow config stop s .consume)
    (hrequest : s.pc.request = some size) (hawake : s.asleep config = false)
    (hconsumed : Consumed codecs config s size next) :
    Inv codecs config type limit total stop next := by
  cases hconsumed with
  | stalled | outside => exact hinv.consumer hinv.limited.abort rfl
  | served hspace =>
      exact hinv.consumer (served_limited hinv.limited hrequest hspace hwithin)
        (advance_decompressorPart _ _)
  | slept hallowed hmissing hinside hthread =>
      have hstays := hbelow rfl size
        ⟨hthread, hrequest, hawake, hallowed, hmissing, hinside⟩
      exact hinv.consumer (sleeping_limited hinv.limited hrequest fun _ => hstays) rfl
  | decompressed _ _ hthread hchunk =>
      -- the consumer without the decompressor thread decompresses for itself
      have halone : ¬ config.multithreadedRead = true := by simp [hthread]
      obtain ⟨-, hwrite, htotal⟩ := decompressChunk_writePosition hchunk
      have hsleeping := sleeping_limited hinv.limited hrequest fun h => absurd h halone
      exact ⟨hsleeping.file htotal (htotal ▸ hwrite), fun h => absurd h halone⟩

/-- **One step of either thread.** -/
theorem stepWithin_inv (hinverse : codecs.Inverse type limit) {label : Label}
    (hinv : Inv codecs config type limit total stop s)
    (hbelow : StaysBelow config stop s label)
    (hstep : stepWithin codecs config s label = some next) :
    Inv codecs config type limit total stop next := by
  unfold stepWithin at hstep
  split at hstep
  · case _ hwithin =>
      cases step_stepped hstep with
      | decompress hthread hstoring hgoing hchunk =>
          exact hinv.decompress hinverse hthread hstoring hgoing hchunk
      | storeDone hstoring => exact hinv.storeDone hstoring
      | call hidle =>
          exact hinv.consumer (start_limited hinv.limited hidle _)
            (start_decompressorPart config s _)
      | poll hentered =>
          exact hinv.consumer (poll_limited hinv.limited hentered _)
            (poll_decompressorPart config s _)
      | consume hrequest hawake hconsumed =>
          exact hinv.consumed hwithin hbelow hrequest hawake hconsumed
  · cases hstep

/-- A blocked consumer is in front of the boundary, so the decompressor is not. -/
theorem Inv.neverStarves (hinverse : codecs.Inverse type limit)
    (hinv : Inv codecs config type limit total stop s) (htotal : total < 2 ^ 64) :
    NeverStarves codecs config s := by
  constructor
  · rintro size ⟨hthread, hrequest, hwaiting, hmissing⟩ -
    obtain ⟨rest, hsupply⟩ := hinv.supply hthread
    obtain ⟨hneeded, hstop⟩ := hinv.limited.asked hthread size hrequest hwaiting
    have hwrite : s.writePosition < s.readPosition + size := by
      have := hinv.limited.write_le
      unfold State.available at hmissing
      omega
    refine ⟨?_, hsupply.serves hinverse hthread hstop rest s hneeded.ge⟩
    rw [hsupply.flag, Bool.and_eq_false_iff]
    refine Or.inl ?_
    by_contra hdone
    have := hsupply.finished (by simpa using hdone)
    omega
  · intro hlive hdone
    have hread := hinv.limited.read_le hlive
    have hwrite := hinv.limited.write_le
    have havailable : s.available = 0 := by
      simp only [State.done, Bool.and_eq_true] at hdone
      simpa using hdone.2
    unfold State.available at havailable
    omega

/-- The decompressor does not go behind the boundary. -/
theorem exec_ofDecompressor (hinverse : codecs.Inverse type limit)
    {rest : List Stored} (hsupply : Supply codecs type limit stop s rest)
    {labels : List Label} (hlabels : ∀ label ∈ labels, Label.ofDecompressor label)
    (hexec : exec (step codecs config) s labels = some next) :
    next.writePosition ≤ stop := by
  induction labels generalizing s rest with
  | nil =>
      cases hexec
      exact hsupply.write_le
  | cons label labels ih =>
      obtain ⟨middle, hstep, hrest⟩ := exec_cons_eq_some_iff.mp hexec
      have hlater : ∀ label ∈ labels, Label.ofDecompressor label :=
        fun other hother => hlabels other (List.mem_cons_of_mem _ hother)
      rcases hlabels label (by simp) with rfl | rfl
      · cases step_stepped hstep with
        | decompress hthread hstoring hgoing hchunk =>
            obtain ⟨first, after, -, hafter⟩ :=
              hsupply.decompressed hinverse (hsupply.going hstoring hgoing) hchunk
            exact ih hafter hlater hrest
      · cases step_stepped hstep with
        | storeDone hstoring => exact ih (hsupply.stored hstoring) hlater hrest

/-- A read that waits for bytes behind the boundary is not served. -/
theorem staysBelow_of_neverStarves (hinverse : codecs.Inverse type limit) {label : Label}
    (hinv : Inv codecs config type limit total stop s)
    (hstep : stepWithin codecs config s label = some next)
    (hserved : NeverStarves codecs config next) : StaysBelow config stop s label := by
  rintro rfl size ⟨hthread, hrequest, hawake, hallowed, hmissing, hinside⟩
  have hnext : next = sleeping s size := by
    unfold stepWithin at hstep
    split at hstep
    · simp only [step, consume, hrequest, hawake, hallowed, Bool.false_eq_true, if_false,
        if_neg (Nat.not_le.mpr hmissing), if_pos hinside, waitForData, hthread, if_true,
        Option.some.injEq] at hstep
      exact hstep.symm
    · cases hstep
  obtain ⟨rest, hsupply⟩ := hinv.supply hthread
  have hleft : 0 < s.file.totalLeft := by
    have hroom := hsupply.before.room
    have hsome : rest ≠ [] := by
      rintro rfl
      simp only [storedBytes, List.map_nil, List.flatten_nil, List.length_nil] at hroom
      unfold State.writePosition at hinside
      omega
    exact Nat.pos_of_ne_zero fun hzero =>
      hsome (hsupply.before.totalLeft_eq_zero_iff.mp hzero)
  have hblocked : Blocked config next size := by
    rw [hnext]
    exact ⟨hthread, hrequest, rfl, hmissing⟩
  obtain ⟨-, labels, after, hlabels, hexec, hreach⟩ := hserved.served size hblocked (by
    rw [hnext]
    exact hleft)
  rw [hnext] at hexec hreach
  have hsleeping : Supply codecs type limit stop (sleeping s size) rest :=
    hsupply.congr rfl rfl rfl
  exact hreach.trans (exec_ofDecompressor hinverse hsleeping hlabels hexec)

/-- A frame-limited reader that has just been opened. -/
theorem inv_init (codecs : Codecs) (config : Config) {limit : Nat} {stored : List Stored}
    (hlimit : ∀ chunk ∈ stored, chunk.chunk.length ≤ limit) {reader : Container.Reader}
    (hbefore : reader.Before codecs type stored) (houtput : reader.output = [])
    (hgoing : reader.doneDecompressing = false) (preloadActive : Bool) :
    Inv codecs config type limit reader.totalUncompressed
      (stopPosition reader.uncompressedWanted 0 stored)
      (State.init reader preloadActive) := by
  have hwrite : (State.init reader preloadActive).writePosition = 0 := by
    simp [State.writePosition, Reader.writePosition, State.init, houtput]
  refine ⟨⟨rfl, hwrite ▸ Nat.zero_le _, fun _ => Nat.zero_le _, (fun _ h => by cases h),
    fun _ => rfl, (fun _ h => by cases h), (fun h => by cases h), fun _ _ => rfl,
    (fun _ _ h => by cases h)⟩,
    fun _ => ⟨stored, hbefore, hlimit, fun hdone => ?_, fun _ => ?_, ?_⟩⟩
  · have hfile : reader.doneDecompressing = true := hdone
    rw [hgoing] at hfile
    cases hfile
  · rw [hwrite]
    rfl
  · show false = (reader.doneDecompressing && !false)
    rw [hgoing]
    rfl

end

/-- **A frame-limited reader.**  Take any stream in any chunks, any target and any
run of the two threads in which the consumer stays within packets that start before
the target.  The consumer never starves if and only if no read of the run waits for
bytes behind the chunk boundary at which the decompressor stops. -/
theorem never_starves_iff (codecs : Codecs) (config : Config) (type : CompressionType)
    (limit : Nat) (hinverse : codecs.Inverse type limit) (stored : List Stored)
    (hstored : stored ≠ []) (hlimit : ∀ chunk ∈ stored, chunk.chunk.length ≤ limit)
    (hfile : (fileBytes type (stored.map (Stored.record codecs type))).length < 2 ^ 64)
    (hsize : (storedBytes stored).length < 2 ^ 64) (target : Nat)
    (reader : Container.Reader)
    (hinit : Container.init (fileBytes type (stored.map (Stored.record codecs type)))
      (storedBytes stored).length target = some reader)
    (preloadActive : Bool) (labels : List Label) (final : State)
    (hrun : exec (stepWithin codecs config) (State.init reader preloadActive) labels =
      some final) :
    (∀ k s, exec (stepWithin codecs config) (State.init reader preloadActive)
        (labels.take k) = some s → NeverStarves codecs config s) ↔
      Along (stepWithin codecs config) (StaysBelow config (stopPosition target 0 stored))
        (State.init reader preloadActive) labels := by
  obtain ⟨reader', hinit', hbefore, houtput, htotal⟩ :=
    init_stored codecs type hstored hfile target
  cases hinit.symm.trans hinit'
  have hpositive : 0 < (storedBytes stored).length := by
    by_contra hzero
    unfold Container.init at hinit
    rw [if_pos (Or.inr (by omega))] at hinit
    cases hinit
  have hmembers := hinit.symm.trans (init_fileBytes type _ hpositive target)
  have hgoing : reader.doneDecompressing = false := by
    cases hmembers
    rfl
  have hwanted : reader.uncompressedWanted = target := by
    cases hmembers
    rfl
  have hstart := inv_init codecs config hlimit hbefore houtput hgoing preloadActive
  rw [hwanted, htotal] at hstart
  apply prefixes_iff_along
  · intro s (hinv : Inv codecs config type limit (storedBytes stored).length
      (stopPosition target 0 stored) s)
    exact hinv.neverStarves hinverse hsize
  · intro s label next hinv hbelow hstep
    exact stepWithin_inv hinverse hinv hbelow hstep
  · intro s label next hinv hstep hserved
    exact staysBelow_of_neverStarves hinverse hinv hstep hserved
  · exact hstart
  · exact hrun

/-- The packet of nine bytes in two chunks is read up to its seventh byte, which is
in the second chunk. -/
def waitingRun : List Label :=
  [.decompress, .storeDone, .call .step, .poll false, .consume, .consume,
    .call (.readValue 2), .consume]

/-- With the end of the stream as target the read is served by the second chunk. -/
theorem never_starves_iff_waitingRun :
    ∃ reader s, Container.init splitPacketFile 9 9 = some reader ∧
      exec (stepWithin literalCodecs {}) (State.init reader true) waitingRun = some s ∧
      s.waiting = some 5 ∧ NeverStarves literalCodecs {} s := by
  have hinit : (Container.init splitPacketFile 9 9).isSome = true := by decide
  have hrun : (exec (stepWithin literalCodecs {})
      (State.init ((Container.init splitPacketFile 9 9).get hinit) true)
      waitingRun).isSome = true := by
    decide +revert
  refine ⟨_, _, (Option.some_get hinit).symm, (Option.some_get hrun).symm, by decide +revert,
    ?_⟩
  refine (never_starves_iff literalCodecs {} .lz4 12 literalCodecs_inverse splitPacket
    (by simp [splitPacket]) (by simp [splitPacket]) (by decide) (by decide) 9 _
    (Option.some_get hinit).symm true waitingRun _ (Option.some_get hrun).symm).mpr ?_
    waitingRun.length _ (Option.some_get hrun).symm
  have hbelow : Along (stepWithin literalCodecs {})
      (fun s label => label = .consume → ∀ size ∈ s.pc.request, s.readPosition + size ≤ 9)
      (State.init ((Container.init splitPacketFile 9 9).get hinit) true) waitingRun := by
    clear hrun
    decide +revert
  refine hbelow.mono fun s label hcond hconsume size hwaits => ?_
  exact hcond hconsume size hwaits.2.1

/-- With a target inside the packet the decompressor stops behind the first chunk and
the read waits for ever. -/
theorem reader_starves_behind_target :
    ∃ reader s, Container.init splitPacketFile 9 1 = some reader ∧
      exec (stepWithin literalCodecs {}) (State.init reader true) waitingRun = some s ∧
      Blocked {} s 2 ∧ 0 < s.file.totalLeft ∧ s.doneDecompressing = true ∧
      step literalCodecs {} s .decompress = none ∧
      step literalCodecs {} s .storeDone = none ∧ ¬ NeverStarves literalCodecs {} s := by
  refine ⟨_, _, rfl, rfl, ⟨rfl, rfl, rfl, by decide +kernel⟩, by decide +kernel,
    by decide +kernel, by decide +kernel, by decide +kernel, fun hserved => ?_⟩
  have hgoing := (hserved.served 2 ⟨rfl, rfl, rfl, by decide +kernel⟩ (by decide +kernel)).1
  exact absurd hgoing (by decide +kernel)

end FrameLimit
end Lavatube
