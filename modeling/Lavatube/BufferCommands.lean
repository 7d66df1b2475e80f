import Lavatube.HostWriteRegions
import Lavatube.Lib.Windows
import Lavatube.MemoryMirror

/-!
# Buffer commands without a device

When a trace is post-processed there is no device: memory is allocated on the host, and buffer
copies and updates are done there.  Every object has a heap of its own, except for the members of
alias groups.  The commands go through the start of a heap; buffers are read through the pointer
that `find_buffer_memory` returns.

* `step` — a command, on the bytes of the heaps and on the sources of the buffers.
* `Model` — the captured memories, in which aliased buffers share bytes.
* `SameBytes`, `Recorded` — the buffers show the bytes of the model, and their sources are those of
  the bytes that were written.
* `Single`, `Placement` — where the suballocator places buffers.
* `buffer_commands_sequential` — what commands do, if their buffers are at the front of their heaps,
  and that they are wrong elsewhere.
-/

namespace Lavatube
namespace BufferCommands

open ByteMemory Transition Windows AliasGroups AliasPlacement
open Suballocator (HeapRef Config)
open HostWriteRegions (Regions MemoryFlagTracker ChangeSource Provenance Call recorded)
open MemoryMirror (Trace findBufferMemory)

/-! ### The commands -/

/-- The configuration that `create` sets without a device: one memory type that has all flags. -/
def postProcessing (minHeapSize : Nat) : Config where
  minHeapSize := minHeapSize
  memoryTypes := [0x7fffffff]

/-- `VkBufferCopy`. -/
structure BufferCopy where
  srcOffset : UInt64
  dstOffset : UInt64
  size : UInt64
deriving DecidableEq, Repr

/-- The data of `VKCMDCOPYBUFFER` and of `VKCMDUPDATEBUFFER`. -/
inductive Command where
  | copyBuffer (srcBufferIndex dstBufferIndex : Nat) (regions : List BufferCopy)
  | updateBuffer (bufferIndex : Nat) (offset : UInt64) (values : List UInt8)
      (source : ChangeSource)
deriving DecidableEq, Repr

/-- The suballocator, the bytes in its heaps, and `trackedbuffer::source` of the buffers. -/
structure State (tracker : MemoryFlagTracker) where
  suballocator : Suballocator.State
  bytes : HeapRef → Memory
  sources : Nat → Regions tracker

section

variable {tracker : MemoryFlagTracker}

/-- `memcpy` to a place in a heap. -/
def memcpy (bytes : HeapRef → Memory) (home : HeapRef) (place : Nat) (values : List UInt8) :
    HeapRef → Memory :=
  Function.update bytes home (store (bytes home) place values)

/-- A region of `VKCMDCOPYBUFFER`; `memory` is the start of the heap. -/
def copyRegion (src dst : HeapRef) (srcIndex dstIndex : Nat) (st : State tracker)
    (r : BufferCopy) : Option (State tracker) :=
  (HostWriteRegions.step st.sources
      (.copySources dstIndex srcIndex r.dstOffset r.srcOffset r.size)).map fun sources =>
    { st with
      bytes := memcpy st.bytes dst r.dstOffset.toNat
        (slice (st.bytes src) r.srcOffset.toNat r.size.toNat)
      sources := sources }

/-- A command of `execute_commands`. -/
def step (config : Config) (st : State tracker) : Command → Option (State tracker)
  | .copyBuffer srcIndex dstIndex regions =>
      match findBufferMemory config st.suballocator srcIndex with
      | none => none
      | some (src, next) =>
          match findBufferMemory config next dstIndex with
          | none => none
          | some (dst, next) =>
              exec (copyRegion src.home dst.home srcIndex dstIndex)
                { st with suballocator := next } regions
  | .updateBuffer index offset values source =>
      match findBufferMemory config st.suballocator index with
      | none => none
      | some (sub, next) =>
          (HostWriteRegions.step st.sources (.registerSource index
              { address := offset, size := UInt64.ofNat values.length, source := source })).map
            fun sources =>
              { suballocator := next
                bytes := memcpy st.bytes sub.home offset.toNat values
                sources := sources }

end

/-! ### Buffers and windows -/

/-- The captured buffer with an index. -/
def bufferOf (trace : Trace) (index : Nat) : Option TrackedObject :=
  trace.captured.find? fun o => o.key = (.buffer, index)

/-- The size of a buffer. -/
def bufferSize (trace : Trace) (index : Nat) : Nat := (bufferOf trace index).elim 0 trace.size

/-- Where a buffer was at capture. -/
def captureWindow (trace : Trace) (index : Nat) : Window Nat :=
  (bufferOf trace index).elim ⟨0, 0⟩ fun o => ⟨o.backingIndex, o.offset⟩

/-- Where `find_buffer_memory(index).mapped` points to. -/
def mappedWindow (config : Config) (st : Suballocator.State) (index : Nat) :
    Option (Window HeapRef) :=
  (findBufferMemory config st index).map fun found => ⟨found.1.home, found.1.offset⟩

/-! ### The model -/

/-- The captured memories, what their bytes come from, and the buffers through which they were
written. -/
structure Model where
  memory : Nat → Memory
  origin : Nat → Nat → Option Provenance
  writer : Nat → Nat → Option Nat := fun _ _ => none

/-- The parts of commands that are applied one after another. -/
inductive Transfer where
  | copy (srcBufferIndex dstBufferIndex : Nat) (region : BufferCopy)
  | update (bufferIndex : Nat) (offset : UInt64) (values : List UInt8) (source : ChangeSource)

def Command.transfers : Command → List Transfer
  | .copyBuffer srcIndex dstIndex regions => regions.map (.copy srcIndex dstIndex)
  | .updateBuffer index offset values source => [.update index offset values source]

section

variable (trace : Trace)

/-- Bytes are written through a buffer. -/
def Model.write (m : Model) (index pos count : Nat) (bytes : Nat → UInt8)
    (origins : Nat → Option Provenance) : Model where
  memory := (captureWindow trace index).put m.memory pos count bytes
  origin := (captureWindow trace index).put m.origin pos count origins
  writer := (captureWindow trace index).put m.writer pos count fun _ => some index

/-- A byte of an update comes from its packet, and from its own position in the buffer. -/
def updateOrigin (source : ChangeSource) (pos : Nat) : Provenance :=
  ⟨source.packet, source.frame, source.thread, source.callId, 0xfffffffe, BitVec.ofNat 64 pos⟩

/-- A copy takes along what the bytes come from. -/
def Model.transfer (m : Model) : Transfer → Model
  | .copy src dst r =>
      m.write trace dst r.dstOffset.toNat r.size.toNat
        (fun k => (captureWindow trace src).get m.memory (r.srcOffset.toNat + k))
        fun k => (captureWindow trace src).get m.origin (r.srcOffset.toNat + k)
  | .update index offset values source =>
      m.write trace index offset.toNat values.length (fun k => values.getD k 0)
        fun k => some (updateOrigin source (offset.toNat + k))

def Model.run (m : Model) (commands : List Command) : Model :=
  (commands.flatMap Command.transfers).foldl (Model.transfer trace) m

/-- What is read and written is inside of the buffers. -/
def Transfer.InBounds : Transfer → Prop
  | .copy src dst r => r.srcOffset.toNat + r.size.toNat ≤ bufferSize trace src ∧
      r.dstOffset.toNat + r.size.toNat ≤ bufferSize trace dst
  | .update index offset values _ => offset.toNat + values.length ≤ bufferSize trace index

/-! ### Conditions -/

/-- The buffer is in no alias group, or it is at the front of its group. -/
def AtFront (index : Nat) : Prop :=
  ∀ group offset, trace.aliases.lookup (.buffer, index) = some ⟨some group, offset⟩ → offset = 0

/-- The buffers are at the front, if there is something to write. -/
def Transfer.Front : Transfer → Prop
  | .copy src dst r => r.size ≠ 0 → AtFront trace src ∧ AtFront trace dst
  | .update index _ values _ => values ≠ [] → AtFront trace index

/-- What is recorded for a byte of a buffer can be relied on: the byte was written last through this
buffer, or the record is what it comes from. -/
def UpToDate (maps : Nat → Nat → Option Provenance) (m : Model) (index pos : Nat) : Prop :=
  (captureWindow trace index).get m.writer pos = some index ∨
    maps index pos = (captureWindow trace index).get m.origin pos

/-- A byte of unknown origin leaves no old record behind where it is copied to: the byte there was
written last through this buffer and was unknown as well, or nothing is recorded. -/
def Unrecorded (maps : Nat → Nat → Option Provenance) (m : Model) (index pos : Nat) : Prop :=
  ((captureWindow trace index).get m.writer pos = some index ∧
      (captureWindow trace index).get m.origin pos = none) ∨
    maps index pos = none

/-- The records of the copied bytes can be relied on, and no old record is left behind. -/
def Transfer.Sourced (maps : Nat → Nat → Option Provenance) (m : Model) : Transfer → Prop
  | .copy src dst r => ∀ k < r.size.toNat, UpToDate trace maps m src (r.srcOffset.toNat + k) ∧
      ((captureWindow trace src).get m.origin (r.srcOffset.toNat + k) = none →
        Unrecorded trace maps m dst (r.dstOffset.toNat + k))
  | .update _ _ _ _ => True

/-- The call that records a transfer. -/
def Transfer.call : Transfer → Call Nat
  | .copy src dst r => .copySources dst src r.dstOffset r.srcOffset r.size
  | .update index offset values source => .registerSource index
      { address := offset, size := UInt64.ofNat values.length, source := source }

/-- What is recorded after a transfer. -/
def record (maps : Nat → Nat → Option Provenance) (transfer : Transfer) :
    Nat → Nat → Option Provenance :=
  HostWriteRegions.apply maps transfer.call

/-- Every transfer is sourced, in the state in front of it. -/
def AllSourced (maps : Nat → Nat → Option Provenance) (m : Model) : List Transfer → Prop
  | [] => True
  | transfer :: rest => transfer.Sourced trace maps m ∧
      AllSourced (record maps transfer) (m.transfer trace transfer) rest

/-- The buffers are placed, and updates come from a packet. -/
def Command.Ready (layout : Nat → Option (Window HeapRef)) : Command → Prop
  | .copyBuffer src dst _ => (layout src).isSome ∧ (layout dst).isSome
  | .updateBuffer index _ _ source => (layout index).isSome ∧ source.selfTest = true

end

/-! ### What commands should do -/

/-- Every buffer that is placed shows its bytes in the model. -/
def SameBytes {tracker : MemoryFlagTracker} (config : Config) (trace : Trace) (st : State tracker)
    (m : Model) : Prop :=
  Agree (bufferSize trace) (mappedWindow config st.suballocator) (captureWindow trace) st.bytes
    m.memory

/-- For every byte that was written last through a buffer, the buffer has recorded what the byte
comes from. -/
def Recorded (trace : Trace) (maps : Nat → Nat → Option Provenance) (m : Model) : Prop :=
  ∀ index, ∀ x < bufferSize trace index, (captureWindow trace index).get m.writer x = some index →
    maps index x = (captureWindow trace index).get m.origin x

/-! ### Where buffers are -/

/-- Without a device, objects outside of the alias groups have an allocation of their own. -/
def Dedicated (trace : Trace) : Prop :=
  ∀ o ∈ trace.captured, (∀ group, ¬ InGroup trace.aliases group o) → o.dedicatedAllocation = true

/-- Objects outside of the alias groups are at the front of their heaps, and only sessions are
searched a place for. -/
structure Single (st : Suballocator.State) : Prop where
  offset : ∀ type index g, st.history.bound (.object type index) = some g →
    g.entry.aliasMember = false → g.entry.offset = 0
  searches : ∀ tid search, st.searches tid = some search →
    ∀ type index, search.request.sub.key ≠ .object type index

section

variable {config : Config} {trace : Trace} {st st' : Suballocator.State}

theorem Single.bind {home : HeapRef} {total : Nat} {r : Suballocator.Request}
    {s : Suballocator.Suballocation} (hsingle : Single st)
    (hoffset : s.aliasMember = false → s.offset = 0)
    (hbind : st.bind home total r s = some st') : Single st' := by
  obtain ⟨lookups, -, rfl⟩ := Suballocator.bind_eq_some hbind
  refine ⟨fun type index g hg halone => ?_, hsingle.searches⟩
  change Function.update st.history.bound s.key (some ⟨r, home, s⟩) (.object type index) =
    some g at hg
  by_cases hkey : Suballocator.Key.object type index = s.key
  · rw [hkey, Function.update_self] at hg
    cases hg
    exact hoffset halone
  · rw [Function.update_of_ne hkey] at hg
    exact hsingle.offset type index g hg halone

/-- A call that places no object by its own. -/
theorem Single.of_outcome {label : Suballocator.Label} (hsingle : Single st)
    (hkey : ∀ type index, label.key ≠ some (.object type index))
    (houtcome : Suballocator.Outcome st label st') : Single st' := by
  constructor
  · intro type index g hg halone
    rcases houtcome.live hg with ⟨hold, -⟩ | ⟨-, hcall | ⟨tid, search, hsearch, hobject, -⟩⟩
    · exact hsingle.offset type index g hold halone
    · exact absurd hcall (hkey type index)
    · exact absurd hobject (hsingle.searches tid search hsearch type index)
  · intro tid search hsearch type index hobject
    rcases houtcome.search hsearch with ⟨old, hold, hsame⟩ | ⟨hcall, -⟩
    · rw [← hsame] at hobject
      exact hsingle.searches tid old hold type index hobject
    · exact hkey type index (hcall.trans (congrArg some hobject))

theorem Single.add {tid : Nat} {data : TrackedObject} (hsingle : Single st)
    (hdedicated : Dedicated trace) (haliases : st.aliases = trace.aliases)
    (hdata : data ∈ trace.captured)
    (hadd : Suballocator.addTrackedobject config st tid data = some st') : Single st' := by
  -- a member of a group is bound in the heap of the group
  have hmember : ∀ {st : Suballocator.State} {group offset : Nat}, Single st →
      Suballocator.bindMember st tid group offset data = some st' → Single st' := by
    intro st group offset hsingle hbind
    obtain ⟨home, h, -, -, hbind⟩ := Suballocator.bindMember_eq_some hbind
    exact hsingle.bind (fun halone => by cases halone) hbind
  cases Suballocator.addTrackedobject_added hadd with
  | later hget hbind => exact hmember hsingle hbind
  | first hget hg hfirst hreserve hbind =>
      obtain ⟨hhistory, -, hsearches, -⟩ := Suballocator.reserveGroup_kept hreserve
      refine hmember ⟨fun type index g hg => ?_, fun tid search hsearch => ?_⟩ hbind
      · rw [hhistory] at hg
        exact hsingle.offset type index g hg
      · rw [hsearches] at hsearch
        exact hsingle.searches tid search hsearch
  | single hget hnone halignment hplace =>
      -- an object of no group has a memory of its own
      have hungrouped : ∀ group, ¬ InGroup trace.aliases group data := by
        rintro group ⟨offset, hlookup⟩
        rw [← haliases, TrackedObject.key, Aliases.lookup_of_getAliasLookup hget] at hlookup
        exact hnone group offset hlookup
      rw [hdedicated data hdata hungrouped] at hplace
      obtain ⟨h, -, hbind⟩ := Suballocator.allocate_eq_some
        (show Suballocator.allocate config st _ true = some st' from hplace)
      have hpushed : Single (st.pushHeap tid h) := ⟨hsingle.offset, hsingle.searches⟩
      exact hpushed.bind (fun _ => rfl) hbind

theorem Single.step {label : Suballocator.Label} (hsingle : Single st)
    (hinv : Suballocator.Inv config st) (hdedicated : Dedicated trace)
    (haliases : st.aliases = trace.aliases) (hplaces : Places trace.captured label)
    (hstep : Suballocator.step config st label = some st') : Single st' := by
  have houtcome := (Suballocator.step_outcome hinv hstep).1
  cases label with
  | addTrackedobject tid data => exact hsingle.add hdedicated haliases hplaces hstep
  | addDatagraphpipelinesession tid data =>
      exact hsingle.of_outcome (fun _ _ h => by cases h) houtcome
  | advance tid => exact hsingle.of_outcome (fun _ _ h => by cases h) houtcome
  | freeImage index => exact hsingle.of_outcome (fun _ _ h => by cases h) houtcome
  | freeBuffer index => exact hsingle.of_outcome (fun _ _ h => by cases h) houtcome
  | freeTensor index => exact hsingle.of_outcome (fun _ _ h => by cases h) houtcome
  | freeDatagraphpipelinesession index =>
      exact hsingle.of_outcome (fun _ _ h => by cases h) houtcome

/-- What is known of the suballocator after its calls. -/
structure Reached (config : Config) (trace : Trace) (st : Suballocator.State) : Prop where
  heaps : Suballocator.Inv config st
  sources : Sources trace.captured trace.aliases st
  single : Single st

theorem run_reached {threads sessions : Nat} {labels : List Suballocator.Label}
    (hdedicated : Dedicated trace)
    (hvalid : ∀ label ∈ labels, label.Valid ∧ Places trace.captured label)
    (hrun : exec (Suballocator.step config) (Suballocator.create threads
      trace.objects.images.length trace.objects.buffers.length trace.objects.tensors.length
      sessions trace.aliases) labels = some st) : Reached config trace st := by
  obtain ⟨formed, hformed⟩ := trace.formed
  have hsized := group_sized hformed trace.sized
  have hstart : Reached config trace (Suballocator.create threads trace.objects.images.length
      trace.objects.buffers.length trace.objects.tensors.length sessions trace.aliases) :=
    ⟨Suballocator.create_inv config _ _ _ _ _ hsized, create_sources _ _ _ _ _ _ _,
      ⟨fun _ _ _ hg => (by cases hg), fun _ _ hsearch => (by cases hsearch)⟩⟩
  have hkeep : ∀ st label next, Reached config trace st →
      label.Valid ∧ Places trace.captured label →
      Suballocator.step config st label = some next → Reached config trace next := by
    rintro st label next hreached ⟨hlabel, hplaces⟩ hstep
    exact ⟨Suballocator.step_inv hreached.heaps hlabel hstep,
      step_sources hreached.heaps hreached.sources hplaces hstep,
      hreached.single.step hreached.heaps hdedicated hreached.sources.aliases hplaces hstep⟩
  exact exec_invariant hkeep hstart (along_of_forall hvalid) hrun

/-! ### The two layouts -/

theorem bufferOf_eq {o : TrackedObject} {index : Nat} (ho : o ∈ trace.captured)
    (hkey : o.key = (.buffer, index)) : bufferOf trace index = some o := by
  unfold bufferOf
  cases hfind : trace.captured.find? fun o => o.key = (.buffer, index) with
  | none => simpa [hkey] using List.find?_eq_none.mp hfind o ho
  | some other =>
      have hother : other.key = (.buffer, index) := by
        simpa using List.find?_some hfind
      rw [key_injective (List.mem_of_find?_eq_some hfind) ho (hother.trans hkey.symm)]

/-- A buffer that is found has been placed. -/
theorem mappedWindow_spec {index : Nat} {window : Window HeapRef}
    (hreached : Reached config trace st)
    (hwindow : mappedWindow config st index = some window) :
    ∃ o ∈ trace.captured, ∃ g, o.key = (.buffer, index) ∧ Live st o g ∧
      window = ⟨g.home, g.entry.offset⟩ := by
  obtain ⟨found, hfound, rfl⟩ := Option.map_eq_some_iff.mp hwindow
  obtain ⟨l, home, hl, hhome, rfl⟩ := MemoryMirror.findMemory_eq_some hfound
  obtain ⟨g, hg⟩ := hreached.heaps.known _ l home hl hhome
  obtain ⟨l', hl', hlocated, hoffset, -⟩ := hreached.heaps.located _ g hg
  cases hl.symm.trans hl'
  cases hhome.symm.trans hlocated
  obtain ⟨hkey, hdescribed⟩ := hreached.sources.bound _ g hg
  unfold Suballocator.Suballocation.key at hkey
  split at hkey
  · cases hkey
  · case _ htype =>
    obtain hsession | ⟨o, ho, hokey, -⟩ := hdescribed
    · exact absurd hsession htype
    · simp only [Suballocator.Key.object.injEq] at hkey
      rw [hkey.1, hkey.2] at hokey
      refine ⟨o, ho, g, hokey, ?_, ?_⟩
      · have htype' : o.objectType = .buffer := congrArg Prod.fst hokey
        have hindex : o.index = index := congrArg Prod.snd hokey
        unfold Live
        rw [htype', hindex]
        exact hg
      · rw [hoffset]

theorem bufferSize_eq {o : TrackedObject} {index : Nat} (ho : o ∈ trace.captured)
    (hkey : o.key = (.buffer, index)) : bufferSize trace index = trace.size o := by
  rw [bufferSize, bufferOf_eq ho hkey]
  rfl

theorem captureWindow_eq {o : TrackedObject} {index : Nat} (ho : o ∈ trace.captured)
    (hkey : o.key = (.buffer, index)) :
    captureWindow trace index = ⟨o.backingIndex, o.offset⟩ := by
  rw [captureWindow, bufferOf_eq ho hkey]
  rfl

/-- **Sharing.**  Placed buffers share the bytes that they shared at capture. -/
theorem sameSharing (hreached : Reached config trace st) :
    SameSharing (bufferSize trace) (mappedWindow config st) (captureWindow trace) := by
  obtain ⟨formed, hformed⟩ := trace.formed
  intro a b window other hwindow hother x hx y hy
  obtain ⟨o, ho, g, hkey, hlive, rfl⟩ := mappedWindow_spec hreached hwindow
  obtain ⟨o', ho', g', hkey', hlive', rfl⟩ := mappedWindow_spec hreached hother
  rw [bufferSize_eq ho hkey] at hx
  rw [bufferSize_eq ho' hkey'] at hy
  rw [captureWindow_eq ho hkey, captureWindow_eq ho' hkey']
  unfold SamePlace
  by_cases hne : o = o'
  · subst hne
    cases Option.some.inj (hlive.symm.trans hlive')
    simp
  · rcases live_cases hreached.heaps hreached.sources hformed ho ho' hne hlive hlive' with
      ⟨hconnected, hhome, hdistance⟩ | ⟨hapart, hshares⟩
    · -- the distance of the two is the same at both times
      have hbacking := Connected.backingIndex hconnected
      simp only [hhome, hbacking, true_and]
      omega
    · have hsize := trace.size_le_replay o ho
      have hsize' := trace.size_le_replay o' ho'
      have hcaptured := trace.size_le_reqSize o ho
      have hcaptured' := trace.size_le_reqSize o' ho'
      constructor
      · rintro ⟨hhome, hplace⟩
        simp only at hhome hplace
        exact absurd ⟨hhome, by omega, by omega⟩ hshares
      · rintro ⟨hbacking, hplace⟩
        simp only at hbacking hplace
        exact absurd (.single ⟨ho, ho', hbacking, by omega, by omega⟩) hapart

/-- A placed buffer is smaller than a gigabyte. -/
theorem bufferSize_small {index : Nat} {window : Window HeapRef}
    (hreached : Reached config trace st)
    (hwindow : mappedWindow config st index = some window) :
    bufferSize trace index < 2 ^ 30 := by
  obtain ⟨o, ho, g, hkey, hlive, -⟩ := mappedWindow_spec hreached hwindow
  rw [bufferSize_eq ho hkey]
  have hsmall := MemoryMirror.live_small hreached.heaps hreached.sources ho hlive
  have hsize := trace.size_le_replay o ho
  omega

/-- **The front.**  A buffer starts where its heap starts exactly if it is at the front of its
group, or in none. -/
theorem base_eq_zero_iff {index : Nat} {window : Window HeapRef}
    (hreached : Reached config trace st)
    (hwindow : mappedWindow config st index = some window) :
    window.base = 0 ↔ AtFront trace index := by
  obtain ⟨o, ho, g, hkey, hlive, rfl⟩ := mappedWindow_spec hreached hwindow
  show g.entry.offset = 0 ↔ _
  unfold AtFront
  rw [← hkey]
  cases hmember : g.entry.aliasMember with
  | true =>
      obtain ⟨group, hlookup, -⟩ := member_lookup hreached.heaps hreached.sources hlive hmember
      constructor
      · intro hzero group' offset hlookup'
        cases hlookup.symm.trans hlookup'
        exact hzero
      · exact fun hfront => hfront group _ hlookup
  | false =>
      have hzero := hreached.single.offset _ _ g hlive hmember
      refine ⟨fun _ group offset hlookup => ?_, fun _ => hzero⟩
      have hgrouped := (hreached.sources.live ho hlive).2.mpr ⟨group, offset, hlookup⟩
      rw [hmember] at hgrouped
      cases hgrouped

theorem mappedWindow_eq (index : Nat) :
    mappedWindow config st index = (st.lookups.find (.object .buffer index)).bind fun l =>
      l.home.map fun home => ⟨home, l.offset⟩ := by
  unfold mappedWindow MemoryMirror.findBufferMemory MemoryMirror.findMemory
  cases st.lookups.find (.object .buffer index) with
  | none => rfl
  | some l =>
      simp only [Option.bind_some]
      cases l.home <;> rfl

/-- Finding the memory of a buffer leaves all windows. -/
theorem findBufferMemory_of_window {index : Nat} {window : Window HeapRef}
    (hwindow : mappedWindow config st index = some window) :
    ∃ loc next, findBufferMemory config st index = some (loc, next) ∧
      loc.home = window.space ∧ mappedWindow config next = mappedWindow config st := by
  obtain ⟨found, hfound, rfl⟩ := Option.map_eq_some_iff.mp hwindow
  refine ⟨found.1, found.2, hfound, rfl, funext fun i => ?_⟩
  obtain ⟨l, home, hl, hhome, rfl⟩ := MemoryMirror.findMemory_eq_some hfound
  rw [mappedWindow_eq, mappedWindow_eq, Suballocator.find_markInitialized hl]
  split_ifs with hkey
  · rw [hkey, hl]
    rfl
  · rfl

end

/-! ### Bytes -/

theorem memcpy_eq_put {window : Window HeapRef} {bytes : HeapRef → Memory} {pos : Nat}
    {values : List UInt8} (hbase : values ≠ [] → window.base = 0) :
    memcpy bytes window.space pos values =
      window.put bytes pos values.length fun k => values.getD k 0 := by
  cases values with
  | nil =>
      have hstore : store (bytes window.space) pos [] = bytes window.space :=
        funext fun i => if_neg (by simp)
      rw [memcpy, hstore, Function.update_eq_self, List.length_nil, put_zero]
  | cons value values =>
      have hzero := hbase (List.cons_ne_nil _ _)
      unfold memcpy store Window.put
      rw [hzero, Nat.zero_add]

theorem getD_slice {mem : Memory} {pos count k : Nat} (hk : k < count) :
    (slice mem pos count).getD k 0 = mem (pos + k) := by
  simp [slice, List.getD, hk]

section

variable {tracker : MemoryFlagTracker} {fragmentAt : tracker.State → Nat → Option Nat}
variable {config : Config} {trace : Trace} {m : Model} {maps : Nat → Nat → Option Provenance}
variable {layout : Nat → Option (Window HeapRef)} {bytes : HeapRef → Memory}

/-- The two layouts have the same sharing, and windows are at the front where groups are. -/
structure Placement (trace : Trace) (layout : Nat → Option (Window HeapRef)) : Prop where
  sharing : SameSharing (bufferSize trace) layout (captureWindow trace)
  small : ∀ index window, layout index = some window → bufferSize trace index < 2 ^ 30
  front : ∀ index window, layout index = some window →
    (window.base = 0 ↔ AtFront trace index)

/-- **Updates** of buffers at the front. -/
theorem update_agrees {index : Nat} {window : Window HeapRef} {offset : UInt64}
    {values : List UInt8} {source : ChangeSource} (hplacement : Placement trace layout)
    (hwindow : layout index = some window)
    (hbounds : (Transfer.update index offset values source).InBounds trace)
    (hfront : (Transfer.update index offset values source).Front trace)
    (hagree : Agree (bufferSize trace) layout (captureWindow trace) bytes m.memory) :
    Agree (bufferSize trace) layout (captureWindow trace)
      (memcpy bytes window.space offset.toNat values)
      (m.transfer trace (.update index offset values source)).memory := by
  rw [memcpy_eq_put fun hvalues => (hplacement.front index window hwindow).mpr (hfront hvalues)]
  exact hagree.put hplacement.sharing hwindow hbounds fun _ _ => rfl

/-- **Copies** between buffers at the front. -/
theorem copy_agrees {src dst : Nat} {window other : Window HeapRef} {r : BufferCopy}
    (hplacement : Placement trace layout) (hsrc : layout src = some other)
    (hdst : layout dst = some window) (hbounds : (Transfer.copy src dst r).InBounds trace)
    (hfront : (Transfer.copy src dst r).Front trace)
    (hagree : Agree (bufferSize trace) layout (captureWindow trace) bytes m.memory) :
    Agree (bufferSize trace) layout (captureWindow trace)
      (memcpy bytes window.space r.dstOffset.toNat
        (slice (bytes other.space) r.srcOffset.toNat r.size.toNat))
      (m.transfer trace (.copy src dst r)).memory := by
  have hsize : ∀ k < r.size.toNat, r.size ≠ 0 := by
    rintro k hk hzero
    rw [hzero] at hk
    exact absurd hk (Nat.not_lt_zero k)
  -- an empty copy says nothing about the front
  have hbase : slice (bytes other.space) r.srcOffset.toNat r.size.toNat ≠ [] →
      window.base = 0 := by
    intro hvalues
    have hlength := List.length_pos_iff.mpr hvalues
    rw [slice_length] at hlength
    exact (hplacement.front dst window hdst).mpr (hfront (hsize 0 hlength)).2
  -- what is read is what the captured run reads there
  have hvalues : ∀ k < r.size.toNat,
      (slice (bytes other.space) r.srcOffset.toNat r.size.toNat).getD k 0 =
        (captureWindow trace src).get m.memory (r.srcOffset.toNat + k) := by
    intro k hk
    have hzero := (hplacement.front src other hsrc).mpr (hfront (hsize k hk)).1
    have hseen := hagree src other hsrc (r.srcOffset.toNat + k) (by have := hbounds.1; omega)
    rw [getD_slice hk, ← hseen, Window.get, hzero, Nat.zero_add]
  rw [memcpy_eq_put hbase, slice_length]
  exact hagree.put hplacement.sharing hdst hbounds.2 hvalues

/-! ### Sources -/

/-- What is written through a buffer and recorded for it. -/
theorem Recorded.write {index pos count : Nat} {values : Nat → UInt8}
    {origins : Nat → Option Provenance} {map : Nat → Option Provenance}
    (hrecorded : Recorded trace maps m)
    (hinside : ∀ k < count, map (pos + k) = origins k)
    (houtside : ∀ b, ¬ (pos ≤ b ∧ b < pos + count) → map b = maps index b) :
    Recorded trace (Function.update maps index map)
      (m.write trace index pos count values origins) := by
  intro other x hx hwriter
  change ((captureWindow trace other).get ((captureWindow trace index).put m.writer pos count
    fun _ => some index) x) = some other at hwriter
  show _ = (captureWindow trace other).get ((captureWindow trace index).put m.origin pos count
    origins) x
  by_cases hwritten : ∃ k < count,
      SamePlace (captureWindow trace index) (pos + k) (captureWindow trace other) x
  · -- the byte has been written through this buffer
    obtain ⟨k, hk, hsame⟩ := hwritten
    rw [get_put_of_same hk hsame] at hwriter
    cases hwriter
    have hx : x = pos + k := by
      have hplace := hsame.2
      omega
    rw [get_put_of_same hk hsame, Function.update_self, hx]
    exact hinside k hk
  · have hne : ∀ k < count,
        ¬ SamePlace (captureWindow trace index) (pos + k) (captureWindow trace other) x :=
      fun k hk hsame => hwritten ⟨k, hk, hsame⟩
    rw [get_put_of_ne hne] at hwriter
    rw [get_put_of_ne hne, ← hrecorded other x hx hwriter]
    by_cases hother : other = index
    · subst hother
      rw [Function.update_self]
      refine houtside x fun ⟨hle, hlt⟩ => hne (x - pos) (by omega) ⟨rfl, ?_⟩
      omega
    · rw [Function.update_of_ne hother]

theorem offset_update (offset size : UInt64) (source : ChangeSource) :
    HostWriteRegions.Registration.offset
      { address := offset, size := size, source := source } = offset.toNat :=
  if_pos (show (0xffffffffffffffff : UInt64).toNat = 2 ^ 64 - 1 by decide)

/-- An update is recorded with the position of each byte. -/
theorem provenanceAt_update (offset size : UInt64) (source : ChangeSource) (b : Nat) :
    HostWriteRegions.Registration.provenanceAt
      { address := offset, size := size, source := source } b = updateOrigin source b := by
  unfold HostWriteRegions.Registration.provenanceAt HostWriteRegions.Provenance.shift updateOrigin
  simp only [HostWriteRegions.HostWriteReference.provenance,
    HostWriteRegions.Registration.reference, offset_update]
  congr 1
  exact add_sub_cancel _ _

theorem recorded_update {index : Nat} {offset : UInt64} {values : List UInt8}
    {source : ChangeSource} (hsmall : values.length < 2 ^ 64) (hrecorded : Recorded trace maps m) :
    Recorded trace (record maps (.update index offset values source))
      (m.transfer trace (.update index offset values source)) := by
  have hcovers : ∀ b, HostWriteRegions.Registration.Covers
      { address := offset, size := UInt64.ofNat values.length, source := source } b ↔
        offset.toNat ≤ b ∧ b < offset.toNat + values.length := by
    intro b
    unfold HostWriteRegions.Registration.Covers
    rw [if_pos (Or.inl rfl), UInt64.toNat_ofNat_of_lt' hsmall]
    show _ ∧ b < _ + _ * 1 ↔ _
    rw [Nat.mul_one]
  refine hrecorded.write (fun k hk => ?_) fun b hb => ?_
  · rw [if_pos ((hcovers _).mpr ⟨by omega, by omega⟩), provenanceAt_update]
  · exact if_neg fun h => hb ((hcovers b).mp h)

theorem Recorded.upToDate {index x : Nat} (hrecorded : Recorded trace maps m)
    (hx : x < bufferSize trace index) (h : UpToDate trace maps m index x) :
    maps index x = (captureWindow trace index).get m.origin x := by
  rcases h with hwriter | hsame
  · exact hrecorded index x hx hwriter
  · exact hsame

theorem Recorded.unrecorded {index x : Nat} (hrecorded : Recorded trace maps m)
    (hx : x < bufferSize trace index) (h : Unrecorded trace maps m index x) :
    maps index x = none := by
  rcases h with ⟨hwriter, hunknown⟩ | hnone
  · rw [hrecorded index x hx hwriter, hunknown]
  · exact hnone

theorem recorded_copy {src dst : Nat} {r : BufferCopy}
    (hbounds : (Transfer.copy src dst r).InBounds trace) (hrecorded : Recorded trace maps m)
    (hsourced : (Transfer.copy src dst r).Sourced trace maps m) :
    Recorded trace (record maps (.copy src dst r))
      (m.transfer trace (.copy src dst r)) := by
  obtain ⟨hread, hwritten⟩ := hbounds
  refine hrecorded.write (fun k hk => ?_) fun b hb => if_neg hb
  obtain ⟨hknown, hunknown⟩ := hsourced k hk
  have hsame := hrecorded.upToDate (by omega) hknown
  rw [if_pos ⟨by omega, by omega⟩, Nat.add_sub_cancel_left, ← hsame]
  cases hfound : maps src (r.srcOffset.toNat + k) with
  | none => exact hrecorded.unrecorded (by omega) (hunknown (hsame.symm.trans hfound))
  | some provenance => rfl

/-- **Sources.**  Where all transfers are sourced, what is recorded is right. -/
theorem recorded_transfers {transfers : List Transfer}
    (hsmall : ∀ index offset values source,
      Transfer.update index offset values source ∈ transfers → values.length < 2 ^ 64)
    (hbounds : ∀ transfer ∈ transfers, transfer.InBounds trace)
    (hrecorded : Recorded trace maps m) (hsourced : AllSourced trace maps m transfers) :
    Recorded trace (transfers.foldl record maps) (transfers.foldl (Model.transfer trace) m) := by
  induction transfers generalizing maps m with
  | nil => exact hrecorded
  | cons transfer transfers ih =>
      obtain ⟨hfirst, hrest⟩ := hsourced
      obtain ⟨hinside, hbounds⟩ := List.forall_mem_cons.mp hbounds
      refine ih (fun index offset values source hmem =>
        hsmall index offset values source (List.mem_cons_of_mem _ hmem)) hbounds ?_ hrest
      cases transfer with
      | copy src dst r => exact recorded_copy hinside hrecorded hfirst
      | update index offset values source =>
          exact recorded_update (hsmall index offset values source (List.mem_cons_self ..))
            hrecorded

/-! ### Commands -/

/-- What commands do in the program is what their transfers do in the model. -/
structure Follows (config : Config) (trace : Trace)
    (fragmentAt : tracker.State → Nat → Option Nat) (st st' : State tracker)
    (transfers : List Transfer) : Prop where
  windows : mappedWindow config st'.suballocator = mappedWindow config st.suballocator
  maps : ∀ maps, (∀ index, recorded fragmentAt (st.sources index) = maps index) →
    ∀ index, recorded fragmentAt (st'.sources index) = transfers.foldl record maps index
  bytes : (∀ transfer ∈ transfers, transfer.Front trace) → ∀ m, SameBytes config trace st m →
    SameBytes config trace st' (transfers.foldl (Model.transfer trace) m)

variable {st st' st'' : State tracker}

theorem Follows.refl (st : State tracker) : Follows config trace fragmentAt st st [] :=
  ⟨rfl, fun _ hmaps => hmaps, fun _ _ hsame => hsame⟩

theorem Follows.trans {transfers others : List Transfer}
    (hfirst : Follows config trace fragmentAt st st' transfers)
    (hrest : Follows config trace fragmentAt st' st'' others) :
    Follows config trace fragmentAt st st'' (transfers ++ others) := by
  refine ⟨hrest.windows.trans hfirst.windows, fun maps hmaps => ?_, fun hfront m hsame => ?_⟩
  · rw [List.foldl_append]
    exact hrest.maps _ (hfirst.maps maps hmaps)
  · rw [List.foldl_append]
    obtain ⟨hfront, hfront'⟩ := List.forall_mem_append.mp hfront
    exact hrest.bytes hfront' _ (hfirst.bytes hfront m hsame)

/-- **One region.** -/
theorem copyRegion_follows {src dst : Nat} {other window : Window HeapRef} {r : BufferCopy}
    (hlawful : tracker.Lawful fragmentAt)
    (hplacement : Placement trace (mappedWindow config st.suballocator))
    (hsrc : mappedWindow config st.suballocator src = some other)
    (hdst : mappedWindow config st.suballocator dst = some window)
    (hbounds : (Transfer.copy src dst r).InBounds trace) :
    ∃ st', copyRegion other.space window.space src dst st r = some st' ∧
      Follows config trace fragmentAt st st' [.copy src dst r] := by
  have hvalid : (Transfer.copy src dst r).call.Valid := by
    have hsmall := hplacement.small src other hsrc
    have hsmall' := hplacement.small dst window hdst
    obtain ⟨hinside, hinside'⟩ := hbounds
    exact Or.inr ⟨by omega, by omega⟩
  obtain ⟨sources, hstep, hsources⟩ := HostWriteRegions.step_spec hlawful (fun _ => rfl) hvalid
  have hcopy := congrArg (Option.map fun sources => { st with
    bytes := memcpy st.bytes window.space r.dstOffset.toNat
      (slice (st.bytes other.space) r.srcOffset.toNat r.size.toNat)
    sources := sources }) hstep
  refine ⟨_, hcopy, rfl, fun maps hmaps index => ?_, fun hfront m hsame => ?_⟩
  · rw [← funext hmaps]
    exact hsources index
  · exact copy_agrees hplacement hsrc hdst hbounds (hfront _ (List.mem_cons_self ..)) hsame

/-- **The regions of a copy.** -/
theorem copyRegions_follow {src dst : Nat} {other window : Window HeapRef}
    {regions : List BufferCopy} (hlawful : tracker.Lawful fragmentAt)
    (hplacement : Placement trace (mappedWindow config st.suballocator))
    (hsrc : mappedWindow config st.suballocator src = some other)
    (hdst : mappedWindow config st.suballocator dst = some window)
    (hbounds : ∀ r ∈ regions, (Transfer.copy src dst r).InBounds trace) :
    ∃ st', exec (copyRegion other.space window.space src dst) st regions = some st' ∧
      Follows config trace fragmentAt st st' (regions.map (.copy src dst)) := by
  induction regions generalizing st with
  | nil => exact ⟨st, rfl, .refl st⟩
  | cons r regions ih =>
      obtain ⟨hinside, hbounds⟩ := List.forall_mem_cons.mp hbounds
      obtain ⟨next, hnext, hfollows⟩ := copyRegion_follows hlawful hplacement hsrc hdst hinside
      rw [← hfollows.windows] at hplacement hsrc hdst
      obtain ⟨st', hexec, hrest⟩ := ih hplacement hsrc hdst hbounds
      exact ⟨st', exec_cons_eq_some_iff.mpr ⟨next, hnext, hexec⟩, hfollows.trans hrest⟩

/-- **One command.** -/
theorem step_follows {command : Command} (hlawful : tracker.Lawful fragmentAt)
    (hplacement : Placement trace (mappedWindow config st.suballocator))
    (hready : command.Ready (mappedWindow config st.suballocator))
    (hbounds : ∀ transfer ∈ command.transfers, transfer.InBounds trace) :
    ∃ st', step config st command = some st' ∧
      Follows config trace fragmentAt st st' command.transfers := by
  cases command with
  | copyBuffer src dst regions =>
      obtain ⟨other, hsrc⟩ := Option.isSome_iff_exists.mp hready.1
      obtain ⟨window, hdst⟩ := Option.isSome_iff_exists.mp hready.2
      obtain ⟨loc, middle, hfound, hspace, hmiddle⟩ := findBufferMemory_of_window hsrc
      -- the mapping of the source has not changed the window of the destination
      have hdst' : mappedWindow config middle dst = some window := by rw [hmiddle, hdst]
      obtain ⟨loc', next, hfound', hspace', hnext⟩ := findBufferMemory_of_window hdst'
      have hwindows := hnext.trans hmiddle
      have hregions : ∀ r ∈ regions, (Transfer.copy src dst r).InBounds trace :=
        fun r hr => hbounds _ (List.mem_map_of_mem hr)
      rw [← hwindows] at hplacement hsrc hdst
      have hrun : ∃ st', exec (copyRegion other.space window.space src dst)
          { st with suballocator := next } regions = some st' ∧
            Follows config trace fragmentAt { st with suballocator := next } st'
              (regions.map (.copy src dst)) :=
        copyRegions_follow hlawful hplacement hsrc hdst hregions
      obtain ⟨st', hexec, hfollows⟩ := hrun
      refine ⟨st', ?_, hfollows.windows.trans hwindows, hfollows.maps, fun hfront m hsame => ?_⟩
      · unfold step
        simp only [hfound, hfound']
        rw [hspace, hspace']
        exact hexec
      · refine hfollows.bytes hfront m ?_
        unfold SameBytes
        rw [hwindows]
        exact hsame
  | updateBuffer index offset values source =>
      obtain ⟨window, hwindow⟩ := Option.isSome_iff_exists.mp hready.1
      obtain ⟨loc, next, hfound, hspace, hwindows⟩ := findBufferMemory_of_window hwindow
      have hinside := hbounds _ (List.mem_cons_self ..)
      have hlength : offset.toNat + values.length < 2 ^ 30 :=
        lt_of_le_of_lt hinside (hplacement.small index window hwindow)
      have hvalid : (Transfer.update index offset values source).call.Valid := by
        have hone : (1 : UInt32) ≠ 0 := by decide
        refine Or.inr ⟨hone, hready.2, ?_, fun h => absurd rfl h⟩
        rw [offset_update]
        omega
      obtain ⟨sources, hstep, hsources⟩ :=
        HostWriteRegions.step_spec hlawful (fun _ => rfl) hvalid
      refine ⟨{ suballocator := next, bytes := memcpy st.bytes loc.home offset.toNat values,
                sources := sources },
        ?_, hwindows, fun maps hmaps i => ?_, fun hfront m hsame => ?_⟩
      · unfold step
        simp only [hfound]
        exact congrArg (Option.map _) hstep
      · rw [← funext hmaps]
        exact hsources i
      · unfold SameBytes
        rw [hwindows, hspace]
        exact update_agrees hplacement hwindow hinside (hfront _ (List.mem_cons_self ..)) hsame

/-- **A run.** -/
theorem run_follows {commands : List Command} (hlawful : tracker.Lawful fragmentAt)
    (hplacement : Placement trace (mappedWindow config st.suballocator))
    (hready : ∀ command ∈ commands, command.Ready (mappedWindow config st.suballocator))
    (hbounds : ∀ command ∈ commands, ∀ transfer ∈ command.transfers, transfer.InBounds trace) :
    ∃ st', exec (step config) st commands = some st' ∧
      Follows config trace fragmentAt st st' (commands.flatMap Command.transfers) := by
  induction commands generalizing st with
  | nil => exact ⟨st, rfl, .refl st⟩
  | cons command commands ih =>
      obtain ⟨hfirst, hready⟩ := List.forall_mem_cons.mp hready
      obtain ⟨hinside, hbounds⟩ := List.forall_mem_cons.mp hbounds
      obtain ⟨next, hnext, hfollows⟩ := step_follows hlawful hplacement hfirst hinside
      rw [← hfollows.windows] at hplacement hready
      obtain ⟨st', hexec, hrest⟩ := ih hplacement hready hbounds
      exact ⟨st', exec_cons_eq_some_iff.mpr ⟨next, hnext, hexec⟩, hfollows.trans hrest⟩

/-- The bytes of an update are in the buffer. -/
theorem updates_small {commands : List Command} (hplacement : Placement trace layout)
    (hready : ∀ command ∈ commands, command.Ready layout)
    (hbounds : ∀ command ∈ commands, ∀ transfer ∈ command.transfers, transfer.InBounds trace)
    (index : Nat) (offset : UInt64) (values : List UInt8) (source : ChangeSource)
    (hmem : Transfer.update index offset values source ∈ commands.flatMap Command.transfers) :
    values.length < 2 ^ 64 := by
  obtain ⟨command, hcommand, htransfer⟩ := List.mem_flatMap.mp hmem
  have hinside := hbounds command hcommand _ htransfer
  have hplaced := hready command hcommand
  cases command with
  | copyBuffer src dst regions =>
      obtain ⟨r, -, heq⟩ := List.mem_map.mp htransfer
      cases heq
  | updateBuffer index offset values source =>
      cases List.mem_singleton.mp htransfer
      obtain ⟨window, hwindow⟩ := Option.isSome_iff_exists.mp hplaced.1
      have hsmall := hplacement.small index window hwindow
      change offset.toNat + values.length ≤ _ at hinside
      omega

theorem update_bytes {index : Nat} {offset : UInt64} {values : List UInt8} {source : ChangeSource}
    {window : Window HeapRef} (hwindow : mappedWindow config st.suballocator index = some window)
    (hstep : step config st (.updateBuffer index offset values source) = some st') :
    st'.bytes = memcpy st.bytes window.space offset.toNat values := by
  obtain ⟨loc, next, hfound, hspace, -⟩ := findBufferMemory_of_window hwindow
  unfold step at hstep
  simp only [hfound] at hstep
  obtain ⟨sources, -, rfl⟩ := Option.map_eq_some_iff.mp hstep
  rw [← hspace]

/-- A buffer behind the front of its heap does not show a byte that is new to its start. -/
theorem update_misses {index : Nat} {window : Window HeapRef} {source : ChangeSource} {byte : UInt8}
    (hwindow : mappedWindow config st.suballocator index = some window)
    (hbase : window.base ≠ 0) (hsize : 0 < bufferSize trace index)
    (hbyte : window.get st.bytes 0 ≠ byte)
    (hwindows : mappedWindow config st'.suballocator = mappedWindow config st.suballocator)
    (hstep : step config st (.updateBuffer index 0 [byte] source) = some st') (m : Model) :
    ¬ SameBytes config trace st' (m.run trace [.updateBuffer index 0 [byte] source]) := by
  intro hsame
  have hseen := hsame index window (by rw [hwindows, hwindow]) 0 hsize
  have hmodel : (captureWindow trace index).get
      (m.run trace [.updateBuffer index 0 [byte] source]).memory 0 = byte := by
    show (captureWindow trace index).get ((captureWindow trace index).put m.memory 0 1
      fun k => [byte].getD k 0) 0 = byte
    rw [get_put_self, if_pos (by omega)]
    rfl
  have hkept : window.get st'.bytes 0 = window.get st.bytes 0 := by
    rw [update_bytes hwindow hstep]
    unfold Window.get memcpy store
    rw [Function.update_self, if_neg]
    rintro ⟨-, hlt⟩
    rw [List.length_singleton] at hlt
    have hzero : window.base + 0 < 0 + 1 := hlt
    omega
  exact hbyte (hkept.symm.trans (hseen.trans hmodel))

end

theorem Reached.placement {config : Config} {trace : Trace} {st : Suballocator.State}
    (hreached : Reached config trace st) : Placement trace (mappedWindow config st) :=
  ⟨sameSharing hreached, fun _ _ hwindow => bufferSize_small hreached hwindow,
    fun _ _ hwindow => base_eq_zero_iff hreached hwindow⟩

/-- **Buffer commands.**  Take any calls of the suballocator without a device, and any commands in
the bounds of placed buffers.  The commands run to their end.  If all buffers they go through are at
the front of their groups, or in none, every buffer shows the bytes that it has in the model; and if
what is recorded for the bytes of all copies can be relied on, so can what the buffer a byte was
written through has recorded.  For each buffer that is not at the front there is an update that it
does not show. -/
theorem buffer_commands_sequential {minHeapSize : Nat} {trace : Trace}
    (hdedicated : Dedicated trace) {threads sessions : Nat} {labels : List Suballocator.Label}
    (hvalid : ∀ label ∈ labels, label.Valid ∧ Places trace.captured label)
    {tracker : MemoryFlagTracker} {fragmentAt : tracker.State → Nat → Option Nat}
    (hlawful : tracker.Lawful fragmentAt) {st : State tracker}
    (hrun : exec (Suballocator.step (postProcessing minHeapSize)) (Suballocator.create threads
      trace.objects.images.length trace.objects.buffers.length trace.objects.tensors.length
      sessions trace.aliases) labels = some st.suballocator) {m : Model}
    (hsame : SameBytes (postProcessing minHeapSize) trace st m)
    (hwriter : ∀ memory pos, m.writer memory pos = none) :
    (∀ commands : List Command,
      (∀ command ∈ commands,
        command.Ready (mappedWindow (postProcessing minHeapSize) st.suballocator)) →
      (∀ command ∈ commands, ∀ transfer ∈ command.transfers, transfer.InBounds trace) →
      ∃ st', exec (step (postProcessing minHeapSize)) st commands = some st' ∧
        ((∀ command ∈ commands, ∀ transfer ∈ command.transfers, transfer.Front trace) →
          SameBytes (postProcessing minHeapSize) trace st' (m.run trace commands)) ∧
        (AllSourced trace (fun index => recorded fragmentAt (st.sources index)) m
            (commands.flatMap Command.transfers) →
          Recorded trace (fun index => recorded fragmentAt (st'.sources index))
            (m.run trace commands))) ∧
    ∀ index, (mappedWindow (postProcessing minHeapSize) st.suballocator index).isSome →
      0 < bufferSize trace index → ¬ AtFront trace index → ∀ source : ChangeSource,
      source.selfTest = true → ∃ byte st',
        step (postProcessing minHeapSize) st (.updateBuffer index 0 [byte] source) = some st' ∧
        ¬ SameBytes (postProcessing minHeapSize) trace st'
          (m.run trace [.updateBuffer index 0 [byte] source]) := by
  have hplacement := (run_reached hdedicated hvalid hrun).placement
  constructor
  · intro commands hready hbounds
    obtain ⟨st', hexec, hfollows⟩ := run_follows hlawful hplacement hready hbounds
    refine ⟨st', hexec, fun hfront => ?_, fun hsourced => ?_⟩
    · refine hfollows.bytes (fun transfer htransfer => ?_) m hsame
      obtain ⟨command, hcommand, htransfer⟩ := List.mem_flatMap.mp htransfer
      exact hfront command hcommand transfer htransfer
    · rw [funext (hfollows.maps _ fun _ => rfl)]
      have hinside : ∀ transfer ∈ commands.flatMap Command.transfers, transfer.InBounds trace := by
        intro transfer htransfer
        obtain ⟨command, hcommand, htransfer⟩ := List.mem_flatMap.mp htransfer
        exact hbounds command hcommand transfer htransfer
      refine recorded_transfers (updates_small hplacement hready hbounds) hinside ?_ hsourced
      intro index x hx hwritten
      rw [Window.get, hwriter] at hwritten
      cases hwritten
  · intro index hplaced hsize hfront source hsource
    obtain ⟨window, hwindow⟩ := Option.isSome_iff_exists.mp hplaced
    -- a buffer that is not at the front is written at the wrong place of its memory
    have hbase : window.base ≠ 0 :=
      fun hzero => hfront ((hplacement.front index window hwindow).mp hzero)
    have hinside : ∀ byte, ∀ transfer ∈
        (Command.updateBuffer index 0 [byte] source).transfers, transfer.InBounds trace := by
      intro byte transfer htransfer
      cases List.mem_singleton.mp htransfer
      show 0 + 1 ≤ bufferSize trace index
      omega
    obtain ⟨st', hstep, hfollows⟩ := step_follows hlawful hplacement
      (show (Command.updateBuffer index 0 [window.get st.bytes 0 + 1] source).Ready _ from
        ⟨hplaced, hsource⟩) (hinside _)
    refine ⟨_, st', hstep, update_misses hwindow hbase hsize ?_ hfollows.windows hstep m⟩
    exact fun h => absurd (left_eq_add.mp h) (by decide)

/-- A buffer of sixteen bytes in one captured memory. -/
def capturedBuffer (index offset : Nat) (dedicated : Bool) : TrackedObject where
  objectType := .buffer
  index := index
  backingIndex := 0
  offset := offset
  reqSize := 16
  reqs := { size := 16, alignment := 1, memoryTypeBits := 1 }
  dedicatedAllocation := dedicated

/-- Two buffers that overlap in eight bytes, and one apart from them. -/
def overlappingBuffers : TraceObjects where
  images := []
  buffers := [capturedBuffer 0 0 false, capturedBuffer 1 8 false, capturedBuffer 2 64 true]
  tensors := []
  image_type := type_of_none .image
  buffer_type := by simp [capturedBuffer]
  tensor_type := type_of_none .tensor
  image_nodup := nodup_of_none
  buffer_nodup := by simp [capturedBuffer]
  tensor_nodup := nodup_of_none

/-- The trace of the three buffers: the first two are in one group. -/
def overlapping : Trace where
  device := 0
  objects := overlappingBuffers
  size := fun _ => 16
  aliases :=
    { groups := [{ captureMemoryIndex := 0, captureOffset := 0, size := 24, alignment := 1
                   reqs := { size := 24, alignment := 1, memoryTypeBits := 1 } }]
      bufferAliasLookup := [⟨some 0, 0⟩, ⟨some 0, 8⟩, {}] }
  prepared := rfl
  size_le_reqSize := by decide
  size_le_replay := by decide
  sized := by decide

/-- The three buffers are placed. -/
def placeBuffers : List Suballocator.Label :=
  [.addTrackedobject 0 (capturedBuffer 0 0 false), .addTrackedobject 0 (capturedBuffer 1 8 false),
   .addTrackedobject 0 (capturedBuffer 2 64 true)]

theorem overlapping_dedicated : Dedicated overlapping := by
  have hall : ∀ o ∈ overlapping.captured, o = capturedBuffer 0 0 false ∨
      o = capturedBuffer 1 8 false ∨ o = capturedBuffer 2 64 true := by decide
  intro o ho hungrouped
  rcases hall o ho with rfl | rfl | rfl
  · exact absurd ⟨0, rfl⟩ (hungrouped 0)
  · exact absurd ⟨8, rfl⟩ (hungrouped 0)
  · rfl

theorem placeBuffers_valid :
    ∀ label ∈ placeBuffers, label.Valid ∧ Places overlapping.captured label := by
  have hvalid : ∀ index offset dedicated,
      (Suballocator.Label.addTrackedobject 0 (capturedBuffer index offset dedicated)).Valid :=
    fun index offset dedicated => ⟨by simp [capturedBuffer], 0, rfl⟩
  have hplaces : capturedBuffer 0 0 false ∈ overlapping.captured ∧
      capturedBuffer 1 8 false ∈ overlapping.captured ∧
      capturedBuffer 2 64 true ∈ overlapping.captured := by decide
  simp only [placeBuffers, List.forall_mem_cons]
  exact ⟨⟨hvalid _ _ _, hplaces.1⟩, ⟨hvalid _ _ _, hplaces.2.1⟩, ⟨hvalid _ _ _, hplaces.2.2⟩,
    by simp⟩

/-- The suballocator after that. -/
def placedBuffers : Option Suballocator.State :=
  exec (Suballocator.step (postProcessing 1024)) (Suballocator.create 1
    overlapping.objects.images.length overlapping.objects.buffers.length
    overlapping.objects.tensors.length 0 overlapping.aliases) placeBuffers

theorem placedBuffers_windows :
    placedBuffers.map (fun st => (mappedWindow (postProcessing 1024) st 0,
      mappedWindow (postProcessing 1024) st 1, mappedWindow (postProcessing 1024) st 2)) =
        some (some ⟨(0, 0), 0⟩, some ⟨(0, 0), 8⟩, some ⟨(0, 1), 0⟩) := by
  decide +kernel

/-- Memory with zeroes that nothing is known of. -/
def cleared (suballocator : Suballocator.State) : State HostWriteRegions.fragmentTracker where
  suballocator := suballocator
  bytes := fun _ => zeroed
  sources := fun _ => Regions.new HostWriteRegions.fragmentTracker

def clearedModel : Model where
  memory := fun _ => zeroed
  origin := fun _ _ => none

/-- A byte that both buffers of the group show is written and copied. -/
def frontCommands : List Command :=
  [.updateBuffer 0 8 [7] (HostWriteRegions.packetSource 1), .copyBuffer 0 2 [⟨8, 3, 1⟩]]

theorem buffer_commands_sequential_front :
    ∃ suballocator st', placedBuffers = some suballocator ∧
      exec (step (postProcessing 1024)) (cleared suballocator) frontCommands = some st' ∧
      SameBytes (postProcessing 1024) overlapping st'
        (clearedModel.run overlapping frontCommands) ∧
      Recorded overlapping
        (fun index => recorded HostWriteRegions.Fragments.fragmentAt (st'.sources index))
        (clearedModel.run overlapping frontCommands) := by
  obtain ⟨suballocator, hplaced, hwindows⟩ := Option.map_eq_some_iff.mp placedBuffers_windows
  simp only [Prod.mk.injEq] at hwindows
  obtain ⟨hfirst, -, hlast⟩ := hwindows
  have hready : ∀ command ∈ frontCommands,
      command.Ready (mappedWindow (postProcessing 1024) suballocator) := by
    simp [frontCommands, Command.Ready, hfirst, hlast, HostWriteRegions.packetSource,
      HostWriteRegions.ChangeSource.selfTest]
  have hbounds : ∀ command ∈ frontCommands, ∀ transfer ∈ command.transfers,
      transfer.InBounds overlapping := by
    simp only [frontCommands, Command.transfers, List.forall_mem_cons, List.map_cons, List.map_nil,
      List.not_mem_nil, false_imp_iff, implies_true, and_true, Transfer.InBounds]
    decide
  have hatFront : AtFront overlapping 0 ∧ AtFront overlapping 2 := by
    constructor <;> intro group offset hlookup <;> cases hlookup
    rfl
  have hfront : ∀ command ∈ frontCommands, ∀ transfer ∈ command.transfers,
      transfer.Front overlapping := by
    simp only [frontCommands, Command.transfers, List.forall_mem_cons, List.map_cons, List.map_nil,
      List.not_mem_nil, false_imp_iff, implies_true, and_true, Transfer.Front]
    exact ⟨fun _ => hatFront.1, fun _ => hatFront⟩
  have hsourced : AllSourced overlapping (fun _ => recorded HostWriteRegions.Fragments.fragmentAt
      (Regions.new HostWriteRegions.fragmentTracker)) clearedModel
        (frontCommands.flatMap Command.transfers) := by
    refine ⟨trivial, fun k hk => ?_, trivial⟩
    have hk : k < 1 := hk
    interval_cases k
    exact ⟨.inl (by decide), fun hunknown => absurd hunknown (by decide)⟩
  have hrun : placedBuffers = some (cleared suballocator).suballocator := hplaced
  have hsame : SameBytes (postProcessing 1024) overlapping (cleared suballocator) clearedModel :=
    fun _ _ _ _ _ => rfl
  obtain ⟨st', hexec, hbytes, hsources⟩ := (buffer_commands_sequential overlapping_dedicated
    placeBuffers_valid HostWriteRegions.fragmentTracker_lawful hrun hsame fun _ _ => rfl).1
      frontCommands hready hbounds
  exact ⟨suballocator, st', hplaced, hexec, hbytes hfront, hsources hsourced⟩

/-- An update of the second buffer of the group goes to the start of the heap, eight bytes in front
of the buffer: it does not show the byte. -/
theorem aliased_update_misses :
    ∃ suballocator st', placedBuffers = some suballocator ∧
      (Transfer.update 1 0 [1] (HostWriteRegions.packetSource 1)).InBounds overlapping ∧
      SameBytes (postProcessing 1024) overlapping (cleared suballocator) clearedModel ∧
      step (postProcessing 1024) (cleared suballocator)
        (.updateBuffer 1 0 [1] (HostWriteRegions.packetSource 1)) = some st' ∧
      ¬ SameBytes (postProcessing 1024) overlapping st'
        (clearedModel.run overlapping
          [.updateBuffer 1 0 [1] (HostWriteRegions.packetSource 1)]) := by
  obtain ⟨suballocator, hplaced, hwindows⟩ := Option.map_eq_some_iff.mp placedBuffers_windows
  simp only [Prod.mk.injEq] at hwindows
  obtain ⟨-, hwindow, -⟩ := hwindows
  have hplacement :=
    (run_reached overlapping_dedicated placeBuffers_valid hplaced).placement
  have hinside : (Transfer.update 1 0 [1] (HostWriteRegions.packetSource 1)).InBounds
      overlapping := by
    show 0 + 1 ≤ 16
    decide
  have hready : (Command.updateBuffer 1 0 [1] (HostWriteRegions.packetSource 1)).Ready
      (mappedWindow (postProcessing 1024) (cleared suballocator).suballocator) :=
    ⟨Option.isSome_iff_exists.mpr ⟨_, hwindow⟩, rfl⟩
  have hbounds : ∀ transfer ∈
      (Command.updateBuffer 1 0 [1] (HostWriteRegions.packetSource 1)).transfers,
        transfer.InBounds overlapping := by
    intro transfer htransfer
    cases List.mem_singleton.mp htransfer
    exact hinside
  obtain ⟨st', hstep, hfollows⟩ :=
    step_follows HostWriteRegions.fragmentTracker_lawful hplacement hready hbounds
  refine ⟨suballocator, st', hplaced, hinside, fun _ _ _ _ _ => rfl, hstep, ?_⟩
  refine update_misses hwindow (by decide) (by decide) ?_ hfollows.windows hstep _
  show (0 : UInt8) ≠ 1
  decide

end BufferCommands
end Lavatube
