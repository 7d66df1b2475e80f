import Lavatube.Lib.Transition
import Lavatube.Patch
import Lavatube.RangeTracking

/-!
# Host writes to mapped memory

One device memory as the capture layer of `hardcode_write.cpp` sees it.  The
application maps a window and writes through the pointer; nothing is recorded
until a queue submit compares the touched ranges of the submitted command
buffers with the capture clone and emits update packets.

* `mapMemory`, `flushMappedMemoryRange`, `unmapMemory` — the bookkeeping of
  `trace_post_vkMapMemory`, `trace_post_vkFlushMappedMemoryRanges` (without
  markings and without explicit host updates) and `trace_post_vkUnmapMemory`.
* `queueUpdate`, `memoryUpdate` — the two halves of a submit.
* `replayMemory`, `replayObject` — the update packets applied in order, to one
  memory that the objects share and to a copy of one object alone.

Results:

* `submit_spec` — a submit runs to its end and settles every touched byte.
* `run_capture` — the invariant of whole runs: the dirty bytes are exposed and
  the replayed memory is the clone.
* `capture_loses_no_host_write` — what this means for the application's bytes.
-/

namespace Lavatube
namespace HostMemory

open ByteMemory IntervalList RangeTracking Patch Transition

/-- `VK_WHOLE_SIZE`. -/
def wholeSize : Nat := 2 ^ 64 - 1

/-- The part of `trackedobject` that the memory tracking reads. -/
structure TrackedObject where
  offset : Nat
  size : Nat
  accessible : Bool := true
deriving DecidableEq, Repr

/-- The device memory and the objects bound in it. -/
structure Layout where
  allocationSize : Nat
  objects : List TrackedObject
  allocation_lt : allocationSize < 2 ^ 64
  bound_inside : ∀ object ∈ objects, object.offset + object.size ≤ allocationSize

/-- An update packet: the object and the patch. -/
structure Update where
  object : Nat
  bytes : List UInt8
deriving DecidableEq, Repr

/-- The current map: `memory_data->offset` and `memory_data->size` while
`memory_data->ptr` is set. -/
structure Window where
  offset : Nat
  size : Nat
deriving DecidableEq, Repr

/-- `mem` are the bytes of the device memory, `touched` the touched ranges of
each command buffer by object; an object without an entry there has the empty
exposure. -/
structure State where
  mem : Memory := zeroed
  clone : Memory := zeroed
  exposed : Exposure := .empty
  window : Option Window := none
  touched : Nat → Nat → Exposure := fun _ _ => .empty
  packets : List Update := []

/-- `trace_post_vkMapMemory` for coherent memory after a successful map.  All
arithmetic is in 64 bits; `none` is the failed assertion of `add`. -/
def mapMemory (layout : Layout) (s : State) (offset size : Nat) : Option State :=
  let size :=
    if size = wholeSize ∨ (size + offset) % 2 ^ 64 > layout.allocationSize then
      (layout.allocationSize + 2 ^ 64 - offset) % 2 ^ 64
    else
      size
  match s.exposed.addOs offset size with
  | none => none
  | some exposed =>
      some { s with exposed := exposed, window := some ⟨offset, size⟩ }

/-- `capture_clamp_mapped_flush_range`: the requested range cut to the map. -/
def clampMappedFlushRange (window : Option Window) (offset size : Nat) :
    Option (Nat × Nat) :=
  match window with
  | none => none
  | some window =>
      if window.size = 0 then
        none
      else
        let mappedLimit := (window.offset + window.size) % 2 ^ 64
        let requestedEnd :=
          if size = wholeSize then mappedLimit
          else if size > uint64Max - offset then uint64Max
          else offset + size
        let mappedStart := max offset window.offset
        let mappedEnd := min requestedEnd mappedLimit
        if mappedStart ≥ mappedEnd then none else some (mappedStart, mappedEnd)

/-- One range of `trace_post_vkFlushMappedMemoryRanges`. -/
def flushMappedMemoryRange (s : State) (offset size : Nat) : Option State :=
  match clampMappedFlushRange s.window offset size with
  | none => some s
  | some (mappedStart, mappedEnd) =>
      match s.exposed.addOs mappedStart (mappedEnd - mappedStart) with
      | none => none
      | some exposed => some { s with exposed := exposed }

/-- `trace_post_vkUnmapMemory_common`. -/
def unmapMemory (s : State) : State := { s with window := none }

/-- A host write through the mapped pointer. -/
def hostWrite (s : State) (pos : Nat) (value : UInt8) : Option State :=
  match s.window with
  | none => none
  | some window =>
      if window.offset ≤ pos ∧ pos < window.offset + window.size then
        some { s with mem := Function.update s.mem pos value }
      else
        none

/-- `trackedcmdbuffer_trace::touch`.  The touched range lies in the object, as
valid usage demands and `memory_update` asserts. -/
def touch (layout : Layout) (s : State) (cmdbuf index offset size : Nat) :
    Option State :=
  match layout.objects[index]? with
  | none => none
  | some object =>
      if object.accessible = false then
        some s
      else
        let size := if size = wholeSize then object.size - offset else size
        if offset + size ≤ object.size then
          match (s.touched cmdbuf index).addOs offset size with
          | none => none
          | some touched =>
              some { s with
                touched := Function.update s.touched cmdbuf
                  (Function.update (s.touched cmdbuf) index touched) }
        else
          none

/-- What `queue_update` collects for the memory: the span to map and the
command buffers to visit. -/
structure Pending where
  range : Option Range := none
  cmdbufs : List Nat := []
deriving DecidableEq, Repr

/-- The body of the loop of `queue_update`. -/
def queueObject (s : State) (cmdbuf : Nat) (pending : Pending)
    (entry : TrackedObject × Nat) : Pending :=
  let minrange := s.exposed.overlap (s.touched cmdbuf entry.2) entry.1.offset
  if minrange.Valid then
    { range := some (match pending.range with
        | none => minrange
        | some m => ⟨min m.first minrange.first, max m.last minrange.last⟩)
      cmdbufs := pending.cmdbufs.insert cmdbuf }
  else
    pending

/-- `queue_update` for one command buffer. -/
def queueUpdate (layout : Layout) (s : State) (pending : Pending) (cmdbuf : Nat) :
    Pending :=
  layout.objects.zipIdx.foldl (queueObject s cmdbuf) pending

/-- `queue_update` for all command buffers of the submit. -/
def queueUpdates (layout : Layout) (s : State) (cmdbufs : List Nat) : Pending :=
  cmdbufs.foldl (queueUpdate layout s) {}

/-- What `memory_update` changes. -/
structure Progress where
  clone : Memory
  exposed : Exposure
  packets : List Update

/-- `write_out_object`: the clone and the packets afterwards.  `changed` is the
mapped memory by position in the device memory. -/
def writeOutObject (index base : Nat) (clone changed : Memory)
    (offset size : Nat) : Memory × List Update :=
  let cloneptr := shift clone base
  let changedptr := shift changed base
  let patchStart := findPatchStart cloneptr changedptr offset size
  if patchStart = size then
    (clone, [])
  else
    let written :=
      writePatch cloneptr changedptr (offset + patchStart) (size - patchStart)
    (rebase clone base written.clone, [⟨index, written.bytes⟩])

/-- The body of the innermost loop of `memory_update`, for one touched range of
an object; `none` is a failed assertion. -/
def updateRange (isMapped : Bool) (changed : Memory) (index : Nat)
    (object : TrackedObject) (progress : Progress) (r : Range) : Option Progress :=
  let first := (r.first + object.offset) % 2 ^ 64
  let last := (r.last + object.offset) % 2 ^ 64
  if last < object.offset + object.size then
    match progress.exposed.fetch first last isMapped with
    | none => none
    | some (v, exposed) =>
        if v.Valid then
          let written := writeOutObject index object.offset progress.clone changed
            (v.first - object.offset) (v.last - v.first + 1)
          some
            { clone := written.1
              exposed := exposed
              packets := progress.packets ++ written.2 }
        else
          some { progress with exposed := exposed }
  else
    none

/-- The loop of `memory_update` over the touched ranges of one object. -/
def updateObject (layout : Layout) (s : State) (changed : Memory)
    (progress : Progress) (visit : Nat × Nat) : Option Progress :=
  match layout.objects[visit.2]? with
  | none => none
  | some object =>
      exec (updateRange s.window.isSome changed visit.2 object) progress
        (s.touched visit.1 visit.2).list

/-- The window that `memory_update` reads through: the current map if it
reaches far enough, else a map of exactly the span. -/
def bindingWindow (layout : Layout) (s : State) (range : Range) : Option Window :=
  let remap : Option Window :=
    if range.last - range.first + 1 ≤ layout.allocationSize then
      some ⟨range.first, range.last - range.first + 1⟩
    else
      none
  match s.window with
  | none => remap
  | some window =>
      if window.offset ≤ range.first ∧
          (window.size + window.offset) % 2 ^ 64 ≥ range.last then
        some window
      else
        remap

/-- The device memory seen through a window; `stray` is what happens to lie
outside of it. -/
def through (window : Window) (mem stray : Memory) : Memory :=
  fun i => if window.offset ≤ i ∧ i < window.offset + window.size then mem i
    else stray i

/-- The visits of `memory_update`: every object of every collected command
buffer, in the order of the two hash tables. -/
def visitsOf (layout : Layout) (cmdbufs : List Nat) : List (Nat × Nat) :=
  cmdbufs.flatMap fun cmdbuf =>
    (List.range layout.objects.length).map fun index => (cmdbuf, index)

/-- `memory_update`.  The order of the visits and the bytes outside the mapped
window are not determined by the program. -/
def memoryUpdate (layout : Layout) (s : State) (pending : Pending)
    (visits : List (Nat × Nat)) (stray : Memory) : Option State :=
  match pending.range with
  | none => some s
  | some range =>
      match bindingWindow layout s range with
      | none => none
      | some window =>
          match exec (updateObject layout s (through window s.mem stray))
              ⟨s.clone, s.exposed, s.packets⟩ visits with
          | none => none
          | some progress =>
              some { s with
                clone := progress.clone
                exposed := progress.exposed
                packets := progress.packets }

/-- A queue submit. -/
def submit (layout : Layout) (s : State) (cmdbufs : List Nat)
    (visits : List (Nat × Nat)) (stray : Memory) : Option State :=
  let pending := queueUpdates layout s cmdbufs
  if visits.Perm (visitsOf layout pending.cmdbufs) then
    memoryUpdate layout s pending visits stray
  else
    none

/-- What the application does. -/
inductive Label where
  | map (offset size : Nat)
  | write (pos : Nat) (value : UInt8)
  | flush (offset size : Nat)
  | unmap
  | touch (cmdbuf index offset size : Nat)
  | submit (cmdbufs : List Nat) (visits : List (Nat × Nat)) (stray : Memory)

/-- One step of the application.  Offsets and sizes of a map are `VkDeviceSize`
values. -/
def step (layout : Layout) (s : State) : Label → Option State
  | .map offset size =>
      if offset < 2 ^ 64 ∧ size < 2 ^ 64 then mapMemory layout s offset size
      else none
  | .write pos value => hostWrite s pos value
  | .flush offset size =>
      if offset < 2 ^ 64 ∧ size < 2 ^ 64 then flushMappedMemoryRange s offset size
      else none
  | .unmap => some (unmapMemory s)
  | .touch cmdbuf index offset size => touch layout s cmdbuf index offset size
  | .submit cmdbufs visits stray => submit layout s cmdbufs visits stray

/-- One update packet applied at its object's place in a memory. -/
def applyUpdate (layout : Layout) (replay : Memory) (update : Update) :
    Option Memory :=
  match layout.objects[update.object]? with
  | none => none
  | some object =>
      match readPatch (shift replay object.offset) object.size update.bytes with
      | some (buf, _, []) => some (rebase replay object.offset buf)
      | _ => none

/-- The packets applied in order to a zeroed memory. -/
def replayMemory (layout : Layout) (packets : List Update) : Option Memory :=
  exec (applyUpdate layout) zeroed packets

/-- One packet applied to a copy of one object; packets of other objects do not
reach it. -/
def applyOwn (index size : Nat) (copy : Memory) (update : Update) : Option Memory :=
  if update.object = index then
    match readPatch copy size update.bytes with
    | some (buf, _, []) => some buf
    | _ => none
  else
    some copy

/-- The packets applied in order to a zeroed copy of one object. -/
def replayObject (layout : Layout) (index : Nat) (packets : List Update) :
    Option Memory :=
  match layout.objects[index]? with
  | none => none
  | some object => exec (applyOwn index object.size) zeroed packets

/-! ## The span and the command buffers of a submit -/

/-- Position `y` of the device memory is exposed and touched through an object
by the command buffer. -/
def DueAt (s : State) (cmdbuf : Nat) (entry : TrackedObject × Nat) (y : Nat) : Prop :=
  s.exposed.Mem y ∧ entry.1.offset ≤ y ∧
    (s.touched cmdbuf entry.2).Mem (y - entry.1.offset)

/-- `pending` is what has been collected when exactly the pairs of `Seen` (a
command buffer and a position it is due to update) have been looked at. -/
structure Collected (Seen : Nat → Nat → Prop) (pending : Pending) : Prop where
  cmdbuf_of_seen : ∀ c y, Seen c y → c ∈ pending.cmdbufs
  seen_of_cmdbuf : ∀ c ∈ pending.cmdbufs, ∃ y, Seen c y
  range_of_seen : ∀ c y, Seen c y → ∃ m, pending.range = some m ∧ m.Mem y
  ends : ∀ m, pending.range = some m →
    (∃ c, Seen c m.first) ∧ (∃ c, Seen c m.last) ∧ m.Valid

theorem Collected.congr {Seen Seen' : Nat → Nat → Prop} {pending : Pending}
    (hcollected : Collected Seen pending) (hiff : ∀ c y, Seen c y ↔ Seen' c y) :
    Collected Seen' pending := by
  have hset : Seen = Seen' := funext fun c => funext fun y => propext (hiff c y)
  exact hset ▸ hcollected

theorem queueObject_collected {Seen : Nat → Nat → Prop} {pending : Pending}
    (s : State) (cmdbuf : Nat) (entry : TrackedObject × Nat)
    (hwf : s.exposed.WF) (htouched : (s.touched cmdbuf entry.2).WF)
    (hoffset : entry.1.offset ≤ uint64Max)
    (hcollected : Collected Seen pending) :
    Collected (fun c y => Seen c y ∨ (c = cmdbuf ∧ DueAt s cmdbuf entry y))
      (queueObject s cmdbuf pending entry) := by
  have hhull : Hull (s.exposed.overlap (s.touched cmdbuf entry.2) entry.1.offset)
      (DueAt s cmdbuf entry) :=
    Exposure.overlap_spec s.exposed (s.touched cmdbuf entry.2) entry.1.offset hwf
      htouched hoffset
  unfold queueObject
  generalize s.exposed.overlap (s.touched cmdbuf entry.2) entry.1.offset =
    minrange at *
  simp only
  split
  · case _ hvalid =>
      have hends := hhull.ends hvalid
      refine ⟨?_, ?_, ?_, ?_⟩
      · rintro c y (hseen | ⟨rfl, hdue⟩)
        · exact List.mem_insert_of_mem (hcollected.cmdbuf_of_seen c y hseen)
        · exact List.mem_insert_self
      · intro c hc
        rcases List.mem_insert_iff.mp hc with rfl | hc
        · exact ⟨minrange.first, Or.inr ⟨rfl, hends.1⟩⟩
        · obtain ⟨y, hy⟩ := hcollected.seen_of_cmdbuf c hc
          exact ⟨y, Or.inl hy⟩
      · intro c y hseen
        refine ⟨_, rfl, ?_⟩
        rcases hseen with hseen | ⟨rfl, hdue⟩
        · obtain ⟨m, hm, hmem⟩ := hcollected.range_of_seen c y hseen
          rw [hm]
          simp only [Interval.Mem] at hmem ⊢
          omega
        · have hmem := (hhull.mem hdue).2
          cases hrange : pending.range with
          | none => exact hmem
          | some m =>
              simp only [Interval.Mem] at hmem ⊢
              omega
      · intro m hm
        cases hm
        cases hrange : pending.range with
        | none =>
            exact ⟨⟨cmdbuf, Or.inr ⟨rfl, hends.1⟩⟩, ⟨cmdbuf, Or.inr ⟨rfl, hends.2⟩⟩,
              hvalid⟩
        | some m =>
            obtain ⟨⟨c, hfirst⟩, ⟨c', hlast⟩, hm⟩ := hcollected.ends m hrange
            refine ⟨?_, ?_, ?_⟩
            · rcases Nat.le_total m.first minrange.first with hle | hle
              · exact ⟨c, Or.inl (by simpa [min_eq_left hle] using hfirst)⟩
              · refine ⟨cmdbuf, Or.inr ⟨rfl, ?_⟩⟩
                simpa [min_eq_right hle] using hends.1
            · rcases Nat.le_total m.last minrange.last with hle | hle
              · refine ⟨cmdbuf, Or.inr ⟨rfl, ?_⟩⟩
                simpa [max_eq_right hle] using hends.2
              · exact ⟨c', Or.inl (by simpa [max_eq_left hle] using hlast)⟩
            · simp only [Interval.Valid] at hm hvalid ⊢
              omega
  · case _ hinvalid =>
      -- nothing of this object is due
      refine hcollected.congr fun c y => ⟨Or.inl, ?_⟩
      rintro (hseen | ⟨-, hdue⟩)
      · exact hseen
      · exact absurd (hhull.mem hdue).1 hinvalid

theorem foldl_queueObject_collected {Seen : Nat → Nat → Prop} {pending : Pending}
    (s : State) (cmdbuf : Nat) (entries : List (TrackedObject × Nat))
    (hwf : s.exposed.WF) (htouched : ∀ index, (s.touched cmdbuf index).WF)
    (hoffset : ∀ entry ∈ entries, entry.1.offset ≤ uint64Max)
    (hcollected : Collected Seen pending) :
    Collected
      (fun c y => Seen c y ∨ (c = cmdbuf ∧ ∃ entry ∈ entries, DueAt s cmdbuf entry y))
      (entries.foldl (queueObject s cmdbuf) pending) := by
  induction entries generalizing Seen pending with
  | nil => exact hcollected.congr fun c y => by simp
  | cons entry entries ih =>
      have hhead := queueObject_collected s cmdbuf entry hwf (htouched entry.2)
        (hoffset entry (List.mem_cons_self ..)) hcollected
      have hrest := ih (fun other hother => hoffset other
        (List.mem_cons_of_mem _ hother)) hhead
      refine hrest.congr fun c y => ?_
      simp only [List.mem_cons, exists_eq_or_imp]
      tauto

theorem Layout.offset_le (layout : Layout) {object : TrackedObject}
    (hobject : object ∈ layout.objects) : object.offset ≤ uint64Max := by
  have hinside := layout.bound_inside object hobject
  have hsize := layout.allocation_lt
  unfold uint64Max
  omega

theorem foldl_queueUpdate_collected (layout : Layout) {Seen : Nat → Nat → Prop}
    {pending : Pending} (s : State) (cmdbufs : List Nat)
    (hwf : s.exposed.WF) (htouched : ∀ c index, (s.touched c index).WF)
    (hcollected : Collected Seen pending) :
    Collected
      (fun c y => Seen c y ∨ (c ∈ cmdbufs ∧
        ∃ entry ∈ layout.objects.zipIdx, DueAt s c entry y))
      (cmdbufs.foldl (queueUpdate layout s) pending) := by
  induction cmdbufs generalizing Seen pending with
  | nil => exact hcollected.congr fun c y => by simp
  | cons cmdbuf cmdbufs ih =>
      have hhead := foldl_queueObject_collected s cmdbuf layout.objects.zipIdx hwf
        (htouched cmdbuf) (fun entry hentry => layout.offset_le
          (List.fst_mem_of_mem_zipIdx hentry)) hcollected
      refine (ih hhead).congr fun c y => ?_
      constructor
      · rintro ((hseen | ⟨rfl, hdue⟩) | ⟨hc, hdue⟩)
        · exact Or.inl hseen
        · exact Or.inr ⟨List.mem_cons_self .., hdue⟩
        · exact Or.inr ⟨List.mem_cons_of_mem _ hc, hdue⟩
      · rintro (hseen | ⟨hc, hdue⟩)
        · exact Or.inl (Or.inl hseen)
        · rcases List.mem_cons.mp hc with rfl | hc
          · exact Or.inl (Or.inr ⟨rfl, hdue⟩)
          · exact Or.inr ⟨hc, hdue⟩

/-- **What `queue_update` collects**: the hull of all due positions, and the
command buffers that have one. -/
theorem queueUpdates_collected (layout : Layout) (s : State) (cmdbufs : List Nat)
    (hwf : s.exposed.WF) (htouched : ∀ c index, (s.touched c index).WF) :
    Collected
      (fun c y => c ∈ cmdbufs ∧ ∃ entry ∈ layout.objects.zipIdx, DueAt s c entry y)
      (queueUpdates layout s cmdbufs) := by
  have hstart : Collected (fun _ _ => False) ({} : Pending) :=
    ⟨fun _ _ h => h.elim, by simp, fun _ _ h => h.elim, by simp⟩
  exact (foldl_queueUpdate_collected layout s cmdbufs hwf htouched hstart).congr
    fun c y => by simp

/-! ## One packet -/

/-- The clone after `write_out_object`. -/
theorem writeOutObject_clone (index base : Nat) (clone changed : Memory)
    (offset size : Nat) (hfits : offset + size < 2 ^ 32) :
    (writeOutObject index base clone changed offset size).1 =
      copy clone changed (base + offset) size := by
  obtain ⟨hle, hequal, -⟩ :=
    findPatchStart_spec (shift clone base) (shift changed base) offset size
  unfold writeOutObject
  simp only
  generalize findPatchStart (shift clone base) (shift changed base) offset size =
    patchStart at *
  -- the skipped prefix is equal already
  have hfront : same clone changed (base + offset) patchStart = true := by
    refine (same_iff _ _ _ _).mpr fun i hlow hhigh => ?_
    have hbase : base ≤ i := by omega
    have := hequal (i - base) (by omega) (by omega)
    rwa [shift_sub _ hbase, shift_sub _ hbase] at this
  have hsplit : copy clone changed (base + offset) size =
      copy clone changed (base + (offset + patchStart)) (size - patchStart) := by
    conv_lhs => rw [← Nat.add_sub_cancel' hle, ← copy_copy, copy_of_same hfront]
    rw [Nat.add_assoc]
  split
  · case _ hall =>
      rw [hall] at hfront
      exact (copy_of_same hfront).symm
  · simp only
    rw [writePatch_clone _ _ _ _ (by omega), rebase_copy_shift, hsplit]

/-- The packet of `write_out_object`, if there is one: applied to a buffer it
rewrites the blocks that differ.  There is none for equal memories. -/
theorem writeOutObject_rewrite (index base : Nat) (clone changed : Memory)
    (offset size : Nat) (hfits : offset + size < 2 ^ 32) :
    ((writeOutObject index base clone changed offset size).2 = [] ∧
      (writeOutObject index base clone changed offset size).1 = clone ∧
      ∀ i, offset ≤ i → i < offset + size → shift clone base i = shift changed base i) ∨
    ∃ bytes, (writeOutObject index base clone changed offset size).2 =
        [⟨index, bytes⟩] ∧
      ∀ buf maxsize, maxsize = 0 ∨ offset + size ≤ maxsize →
        ∃ count, readPatch buf maxsize bytes =
          some (rewrite (shift clone base) (shift changed base) offset size buf, count, []) := by
  obtain ⟨hle, hequal, -⟩ :=
    findPatchStart_spec (shift clone base) (shift changed base) offset size
  have hdvd : findPatchStart (shift clone base) (shift changed base) offset size < size →
      8 ∣ findPatchStart (shift clone base) (shift changed base) offset size :=
    findPatchStart_dvd
  unfold writeOutObject
  simp only
  generalize findPatchStart (shift clone base) (shift changed base) offset size =
    patchStart at *
  split
  · case _ hall =>
      subst hall
      exact Or.inl ⟨rfl, rfl, hequal⟩
  · refine Or.inr ⟨_, rfl, fun buf maxsize hmax => ?_⟩
    have hread := readPatch_writePatch_rewrite (shift clone base)
      (shift changed base) buf (offset + patchStart) (size - patchStart) maxsize []
      (by omega) (by omega)
    rw [List.append_nil, rewrite_skip hle hdvd hequal] at hread
    exact ⟨_, hread⟩

/-- The packet of `write_out_object` brings the changed bytes to a buffer. -/
theorem writeOutObject_packets (index base : Nat) (clone changed : Memory)
    (offset size : Nat) (hfits : offset + size < 2 ^ 32) :
    ((writeOutObject index base clone changed offset size).2 = [] ∧
      (writeOutObject index base clone changed offset size).1 = clone) ∨
    ∃ bytes, (writeOutObject index base clone changed offset size).2 =
        [⟨index, bytes⟩] ∧
      ∀ buf maxsize, maxsize = 0 ∨ offset + size ≤ maxsize →
        ∃ buf' count, readPatch buf maxsize bytes = some (buf', count, []) ∧
          Applied (shift clone base) (shift changed base) offset size buf buf' := by
  rcases writeOutObject_rewrite index base clone changed offset size hfits with
    ⟨hpackets, hclone, -⟩ | ⟨bytes, hpackets, hread⟩
  · exact Or.inl ⟨hpackets, hclone⟩
  · refine Or.inr ⟨bytes, hpackets, fun buf maxsize hmax => ?_⟩
    obtain ⟨count, hread⟩ := hread buf maxsize hmax
    exact ⟨_, count, hread, applied_rewrite _ _ _ _ _⟩

/-- The object shares no byte with another one. -/
def Apart (layout : Layout) (index : Nat) : Prop :=
  ∀ object other otherIndex, layout.objects[index]? = some object →
    layout.objects[otherIndex]? = some other → otherIndex ≠ index →
    object.offset + object.size ≤ other.offset ∨
      other.offset + other.size ≤ object.offset

/-- The packets emitted so far rebuild the clone: in a memory that all objects
share, and in a copy of its own for every object that overlaps no other. -/
structure Replayed (layout : Layout) (clone : Memory) (packets : List Update) :
    Prop where
  shared : replayMemory layout packets = some clone
  own : ∀ index object, layout.objects[index]? = some object → Apart layout index →
    ∃ buf, replayObject layout index packets = some buf ∧
      ∀ x, x < object.size → buf x = clone (object.offset + x)

/-- **Replay follows the clone.** -/
theorem Replayed.writeOutObject {layout : Layout} {clone : Memory}
    {packets : List Update} (hreplayed : Replayed layout clone packets)
    {index : Nat} {object : TrackedObject}
    (hobject : layout.objects[index]? = some object) (changed : Memory)
    {offset size : Nat} (hinside : offset + size ≤ object.size)
    (hsmall : object.size < 2 ^ 32) :
    Replayed layout
      (writeOutObject index object.offset clone changed offset size).1
      (packets ++ (writeOutObject index object.offset clone changed offset size).2) := by
  have hclone := writeOutObject_clone index object.offset clone changed offset size
    (by omega)
  rcases writeOutObject_packets index object.offset clone changed offset size
    (by omega) with ⟨hnone, hsame⟩ | ⟨bytes, hsome, hread⟩
  · rw [hnone, hsame, List.append_nil]
    exact hreplayed
  · rw [hsome, hclone]
    refine ⟨?_, ?_⟩
    · obtain ⟨buf', count, hbuf, happlied⟩ :=
        hread (shift clone object.offset) object.size (Or.inr hinside)
      refine exec_snoc_eq_some_iff.mpr ⟨clone, hreplayed.shared, ?_⟩
      simp only [applyUpdate, hobject, hbuf]
      rw [happlied.eq_copy fun _ _ _ => rfl, rebase_copy_shift]
    · intro own ownObject hown hapart
      obtain ⟨buf, hbuf, hagree⟩ := hreplayed.own own ownObject hown hapart
      simp only [replayObject, hown] at hbuf ⊢
      by_cases hindex : index = own
      · subst hindex
        rw [hobject] at hown
        cases hown
        obtain ⟨buf', count, hstep, happlied⟩ :=
          hread buf object.size (Or.inr hinside)
        refine ⟨buf', exec_snoc_eq_some_iff.mpr ⟨buf, hbuf, ?_⟩, fun x hx => ?_⟩
        · simp [applyOwn, hstep]
        · unfold copy
          split
          · case _ hin =>
              exact happlied.eq_changed (by omega) (by omega) (hagree x hx)
          · case _ hout =>
              rw [happlied.eq_outside (by omega), hagree x hx]
      · refine ⟨buf, exec_snoc_eq_some_iff.mpr ⟨buf, hbuf, ?_⟩, fun x hx => ?_⟩
        · simp [applyOwn, hindex]
        · rw [hagree x hx]
          unfold copy
          have := hapart ownObject object index hown hobject hindex
          rw [if_neg (by omega)]

/-! ## The loops of `memory_update` -/

/-- No object is so large that the 32-bit fields of a span cannot hold an offset
in it, or the length of a span and its two words. -/
def Layout.Small (layout : Layout) : Prop :=
  ∀ object ∈ layout.objects, object.size + 8 < 2 ^ 32

instance (layout : Layout) : Decidable layout.Small :=
  inferInstanceAs (Decidable (∀ object ∈ layout.objects, object.size + 8 < 2 ^ 32))

/-- What holds between any two rounds of `memory_update` started in `s`. -/
structure Settling (layout : Layout) (s : State) (progress : Progress) : Prop where
  wf : progress.exposed.WF
  exposed_le : ∀ y, progress.exposed.Mem y → s.exposed.Mem y
  exposed_of_mapped : s.window.isSome = true →
    ∀ y, s.exposed.Mem y → progress.exposed.Mem y
  dirty : ∀ y, s.mem y ≠ progress.clone y → progress.exposed.Mem y
  replayed : Replayed layout progress.clone progress.packets

/-- Bytes in agreement stay in agreement. -/
def Keeps (s : State) (before after : Progress) : Prop :=
  ∀ y, s.mem y = before.clone y → s.mem y = after.clone y

/-- The bytes of one touched range are up to date in the clone. -/
def RangeDone (s : State) (object : TrackedObject) (r : Range)
    (progress : Progress) : Prop :=
  ∀ x, r.Mem x → s.mem (object.offset + x) = progress.clone (object.offset + x)

/-- **One round of `memory_update`.**  A touched range inside its object never
fails an assertion; afterwards the range is up to date, and nothing that was
up to date is spoiled. -/
theorem updateRange_spec (layout : Layout) (s : State) (changed : Memory)
    {index : Nat} {object : TrackedObject}
    (hobject : layout.objects[index]? = some object)
    (hsmall : layout.Small) {r : Range} (hvalid : r.first ≤ r.last)
    (hinside : r.last < object.size)
    {span : Range} (hview : ∀ y, span.Mem y → changed y = s.mem y)
    (hspan : ∀ y, s.exposed.Mem y → object.offset + r.first ≤ y →
      y ≤ object.offset + r.last → span.Mem y)
    {progress : Progress} (hsettling : Settling layout s progress) :
    ∃ next, updateRange s.window.isSome changed index object progress r = some next ∧
      Settling layout s next ∧ RangeDone s object r next ∧ Keeps s progress next := by
  have hmem : object ∈ layout.objects := List.mem_of_getElem? hobject
  have hend := layout.bound_inside object hmem
  have halloc := layout.allocation_lt
  have hfirst : (r.first + object.offset) % 2 ^ 64 = object.offset + r.first := by
    rw [Nat.mod_eq_of_lt (by omega), Nat.add_comm]
  have hlast : (r.last + object.offset) % 2 ^ 64 = object.offset + r.last := by
    rw [Nat.mod_eq_of_lt (by omega), Nat.add_comm]
  unfold updateRange Exposure.fetch
  simp only [hfirst, hlast]
  rw [if_pos (by omega), if_pos (by omega)]
  obtain ⟨hhull, hwf, hkept⟩ := Exposure.fetchRange_spec progress.exposed
    (object.offset + r.first) (object.offset + r.last) s.window.isSome hsettling.wf
    (by omega)
  generalize progress.exposed.fetchRange (object.offset + r.first)
    (object.offset + r.last) s.window.isSome = fetched at *
  obtain ⟨v, exposed⟩ := fetched
  simp only at hhull hwf hkept ⊢
  have hsub : ∀ y, exposed.Mem y → s.exposed.Mem y := fun y hy =>
    hsettling.exposed_le y ((hkept y).mp hy).1
  have hmapped : s.window.isSome = true → ∀ y, s.exposed.Mem y → exposed.Mem y := by
    intro hwindow y hy
    exact (hkept y).mpr ⟨hsettling.exposed_of_mapped hwindow y hy, Or.inl hwindow⟩
  split
  · case _ hv =>
      obtain ⟨⟨hvfirst, hvlow, -⟩, ⟨hvlast, -, hvhigh⟩⟩ := hhull.ends hv
      have hvle : v.first ≤ v.last := hv
      have hsize := hsmall object hmem
      have hbytes : ∀ y, v.first ≤ y → y ≤ v.last → changed y = s.mem y := by
        intro y hlow hhigh
        have hspanFirst :=
          hspan v.first (hsettling.exposed_le _ hvfirst) hvlow (by omega)
        have hspanLast :=
          hspan v.last (hsettling.exposed_le _ hvlast) (by omega) hvhigh
        exact hview y ⟨hspanFirst.1.trans hlow, hhigh.trans hspanLast.2⟩
      have hclone := writeOutObject_clone index object.offset progress.clone changed
        (v.first - object.offset) (v.last - v.first + 1) (by omega)
      rw [show object.offset + (v.first - object.offset) = v.first by omega] at hclone
      -- the clone afterwards: the memory on the hull, unchanged elsewhere
      have hin : ∀ y, v.first ≤ y → y ≤ v.last →
          copy progress.clone changed v.first (v.last - v.first + 1) y = s.mem y := by
        intro y hlow hhigh
        unfold copy
        rw [if_pos (by omega), hbytes y hlow hhigh]
      have hout : ∀ y, ¬ (v.first ≤ y ∧ y ≤ v.last) →
          copy progress.clone changed v.first (v.last - v.first + 1) y =
            progress.clone y := by
        intro y hy
        unfold copy
        rw [if_neg (by omega)]
      refine ⟨_, rfl, ⟨hwf, hsub, hmapped, ?_, ?_⟩, ?_, ?_⟩
      · intro y hne
        simp only [hclone] at hne
        by_cases hy : v.first ≤ y ∧ y ≤ v.last
        · exact absurd (hin y hy.1 hy.2).symm hne
        · rw [hout y hy] at hne
          refine (hkept y).mpr ⟨hsettling.dirty y hne, Or.inr fun hrange => hy ?_⟩
          exact (hhull.mem ⟨hsettling.dirty y hne, hrange⟩).2
      · exact hsettling.replayed.writeOutObject hobject changed (by omega) (by omega)
      · intro x hx
        simp only [hclone]
        by_cases hy : v.first ≤ object.offset + x ∧ object.offset + x ≤ v.last
        · exact (hin _ hy.1 hy.2).symm
        · rw [hout _ hy]
          by_contra hne
          unfold Interval.Mem at hx
          exact hy (hhull.mem ⟨hsettling.dirty _ hne, by omega, by omega⟩).2
      · intro y hy
        simp only [hclone]
        by_cases hrange : v.first ≤ y ∧ y ≤ v.last
        · exact (hin y hrange.1 hrange.2).symm
        · rw [hout y hrange]
          exact hy
  · case _ hv =>
      -- no exposed byte in the range: it is up to date already
      have hclean : ∀ y, object.offset + r.first ≤ y → y ≤ object.offset + r.last →
          s.mem y = progress.clone y := by
        intro y hlow hhigh
        by_contra hne
        exact hv (hhull.mem ⟨hsettling.dirty y hne, hlow, hhigh⟩).1
      refine ⟨_, rfl, ⟨hwf, hsub, hmapped, ?_, hsettling.replayed⟩, ?_, fun y hy => hy⟩
      · intro y hne
        refine (hkept y).mpr ⟨hsettling.dirty y hne, Or.inr fun hrange => ?_⟩
        exact hne (hclean y hrange.1 hrange.2)
      · intro x hx
        unfold Interval.Mem at hx
        exact hclean _ (by omega) (by omega)

/-- The invariant of the capture: exposures are canonical, touched ranges lie in
their objects, the current map and every dirty byte are exposed, and the emitted
packets rebuild the clone. -/
structure Inv (layout : Layout) (s : State) : Prop where
  exposed_wf : s.exposed.WF
  touched_wf : ∀ cmdbuf index, (s.touched cmdbuf index).WF
  touched_inside : ∀ cmdbuf index object, layout.objects[index]? = some object →
    ∀ x, (s.touched cmdbuf index).Mem x → x < object.size
  window_exposed : ∀ window, s.window = some window →
    ∀ y, window.offset ≤ y → y < window.offset + window.size → s.exposed.Mem y
  dirty : ∀ y, s.mem y ≠ s.clone y → s.exposed.Mem y
  replayed : Replayed layout s.clone s.packets

/-- The touched bytes of an object are up to date in the clone. -/
def ObjectDone (layout : Layout) (s : State) (visit : Nat × Nat) (clone : Memory) :
    Prop :=
  ∀ object, layout.objects[visit.2]? = some object →
    ∀ x, (s.touched visit.1 visit.2).Mem x →
      s.mem (object.offset + x) = clone (object.offset + x)

/-- **One visit of `memory_update`**: all touched ranges of one object. -/
theorem updateObject_spec (layout : Layout) (s : State) (changed : Memory)
    (hsmall : layout.Small) (hinv : Inv layout s) {visit : Nat × Nat}
    (hvisit : visit.2 < layout.objects.length) {span : Range}
    (hview : ∀ y, span.Mem y → changed y = s.mem y)
    (hspan : ∀ entry ∈ layout.objects.zipIdx, ∀ y, DueAt s visit.1 entry y → span.Mem y)
    {progress : Progress} (hsettling : Settling layout s progress) :
    ∃ next, updateObject layout s changed progress visit = some next ∧
      Settling layout s next ∧ ObjectDone layout s visit next.clone ∧
      Keeps s progress next := by
  obtain ⟨cmdbuf, index⟩ := visit
  obtain ⟨object, hobject⟩ : ∃ object, layout.objects[index]? = some object :=
    ⟨_, List.getElem?_eq_getElem hvisit⟩
  have hwf := hinv.touched_wf cmdbuf index
  have hcovers := Exposure.covers_list (s.touched cmdbuf index)
  simp only [updateObject, hobject]
  obtain ⟨final, hfinal, ⟨hsettled, hkeeps⟩, hdone, -⟩ :=
    exec_total (updateRange s.window.isSome changed index object)
      (s.touched cmdbuf index).list
      (fun next => Settling layout s next ∧ Keeps s progress next)
      (RangeDone s object)
      (by
        intro before r hr hbefore
        have hvalid := hwf.valid r hr
        have hlast : (s.touched cmdbuf index).Mem r.last :=
          (hcovers r.last).mp ⟨r, hr, hvalid.1, le_rfl⟩
        obtain ⟨next, hnext, hsettled, hdone, hkeeps⟩ :=
          updateRange_spec layout s changed hobject hsmall hvalid.1
            (hinv.touched_inside cmdbuf index object hobject _ hlast) hview
            (by
              intro y hy hlow hhigh
              have hlow' : object.offset ≤ y := by omega
              refine hspan (object, index) ?_ y ⟨hy, hlow', ?_⟩
              · exact List.mem_zipIdx_iff_getElem?.mpr hobject
              · exact (hcovers _).mp ⟨r, hr, by simp only; omega, by simp only; omega⟩)
            hbefore.1
        exact ⟨next, hnext, ⟨hsettled, fun y hy => hkeeps y (hbefore.2 y hy)⟩, hdone,
          fun other hother x hx => hkeeps _ (hother x hx)⟩)
      ⟨hsettling, fun y hy => hy⟩
  refine ⟨final, hfinal, hsettled, ?_, hkeeps⟩
  intro other hother x hx
  have hother : layout.objects[index]? = some other := hother
  rw [hobject] at hother
  cases hother
  obtain ⟨r, hr, hmem⟩ := (hcovers x).mpr hx
  exact hdone r hr x hmem

/-- The reuse test of `memory_update` compares the end of the map with the last
byte of the span by `>=`.  A submit is `overhanging` when the two are equal: the
last byte of the span then lies one past the map. -/
def overhanging (layout : Layout) (s : State) : Label → Bool
  | .submit cmdbufs _ _ =>
      match s.window, (queueUpdates layout s cmdbufs).range with
      | some window, some range =>
          decide (window.offset ≤ range.first) &&
            decide ((window.size + window.offset) % 2 ^ 64 = range.last)
      | _, _ => false
  | _ => false

/-- The binding window reaches over the whole span. -/
theorem bindingWindow_spec (layout : Layout) (s : State) (range : Range)
    (hvalid : range.Valid) (hlast : range.last < layout.allocationSize)
    (hend : ∀ window, s.window = some window → window.offset ≤ range.first →
      (window.size + window.offset) % 2 ^ 64 ≠ range.last) :
    ∃ window, bindingWindow layout s range = some window ∧
      ∀ y, range.Mem y → window.offset ≤ y ∧ y < window.offset + window.size := by
  unfold Interval.Valid at hvalid
  unfold bindingWindow Interval.Mem
  simp only
  rw [if_pos (by omega)]
  have hremap : ∃ window, some (⟨range.first, range.last - range.first + 1⟩ : Window) =
      some window ∧ ∀ y, range.first ≤ y ∧ y ≤ range.last →
        window.offset ≤ y ∧ y < window.offset + window.size :=
    ⟨_, rfl, fun y hy => ⟨hy.1, by simp only; omega⟩⟩
  cases hwindow : s.window with
  | none => exact hremap
  | some window =>
      simp only
      split
      · case _ hreuse =>
          have hne := hend window hwindow hreuse.1
          have hmod := Nat.mod_le (window.size + window.offset) (2 ^ 64)
          refine ⟨window, rfl, fun y hy => ⟨by omega, by omega⟩⟩
      · exact hremap

theorem mem_visitsOf {layout : Layout} {cmdbufs : List Nat} {visit : Nat × Nat} :
    visit ∈ visitsOf layout cmdbufs ↔
      visit.1 ∈ cmdbufs ∧ visit.2 < layout.objects.length := by
  obtain ⟨cmdbuf, index⟩ := visit
  simp [visitsOf]

/-- **A submit.**  Unless it is overhanging it runs to its end, leaves the
application's memory, the map and the touched ranges alone, keeps the invariant
and brings every touched byte of the submitted command buffers up to date. -/
theorem submit_spec (layout : Layout) (s : State) (hsmall : layout.Small)
    (hinv : Inv layout s) (cmdbufs : List Nat) (visits : List (Nat × Nat))
    (stray : Memory)
    (hvisits : visits.Perm (visitsOf layout (queueUpdates layout s cmdbufs).cmdbufs))
    (hend : overhanging layout s (.submit cmdbufs visits stray) = false) :
    ∃ next, submit layout s cmdbufs visits stray = some next ∧ Inv layout next ∧
      next.mem = s.mem ∧ next.window = s.window ∧ next.touched = s.touched ∧
      ∀ cmdbuf ∈ cmdbufs, ∀ index, ObjectDone layout s (cmdbuf, index) next.clone := by
  have hcollected := queueUpdates_collected layout s cmdbufs hinv.exposed_wf
    hinv.touched_wf
  unfold submit memoryUpdate
  simp only
  rw [if_pos hvisits]
  simp only [overhanging] at hend
  generalize queueUpdates layout s cmdbufs = pending at *
  -- a touched byte that nobody collected is not exposed, hence up to date
  have hclean : ∀ cmdbuf ∈ cmdbufs, ∀ index object, layout.objects[index]? = some object →
      ∀ x, (s.touched cmdbuf index).Mem x →
        s.mem (object.offset + x) ≠ s.clone (object.offset + x) →
        DueAt s cmdbuf (object, index) (object.offset + x) := by
    intro cmdbuf _ index object _ x hx hne
    exact ⟨hinv.dirty _ hne, by simp only; omega, by simpa using hx⟩
  cases hrange : pending.range with
  | none =>
      refine ⟨s, rfl, hinv, rfl, rfl, rfl, ?_⟩
      intro cmdbuf hcmdbuf index object hobject x hx
      by_contra hne
      obtain ⟨m, hm, -⟩ := hcollected.range_of_seen cmdbuf _ ⟨hcmdbuf, (object, index),
        List.mem_zipIdx_iff_getElem?.mpr hobject,
        hclean cmdbuf hcmdbuf index object hobject x hx hne⟩
      rw [hrange] at hm
      cases hm
  | some range =>
      obtain ⟨-, ⟨cmdbuf, -, entry, hentry, hdue⟩, hvalid⟩ := hcollected.ends range hrange
      have hlast : range.last < layout.allocationSize := by
        have hobject := List.mem_zipIdx_iff_getElem?.mp hentry
        have hinside := hinv.touched_inside cmdbuf entry.2 entry.1 hobject _ hdue.2.2
        have hbound := layout.bound_inside entry.1 (List.mem_of_getElem? hobject)
        have := hdue.2.1
        omega
      obtain ⟨window, hwindow, hreach⟩ :=
        bindingWindow_spec layout s range hvalid hlast (by
          intro window hwindow hfirst heq
          rw [hwindow, hrange] at hend
          simp only [hfirst, heq, decide_true, Bool.and_self] at hend
          cases hend)
      simp only [hwindow]
      have hview : ∀ y, range.Mem y → through window s.mem stray y = s.mem y := by
        intro y hy
        unfold through
        rw [if_pos (hreach y hy)]
      have hstart : Settling layout s ⟨s.clone, s.exposed, s.packets⟩ :=
        ⟨hinv.exposed_wf, fun y hy => hy, fun _ y hy => hy, hinv.dirty, hinv.replayed⟩
      obtain ⟨final, hfinal, ⟨hsettled, hkeeps⟩, hdone, -⟩ :=
        exec_total (updateObject layout s (through window s.mem stray)) visits
          (fun next => Settling layout s next ∧
            Keeps s ⟨s.clone, s.exposed, s.packets⟩ next)
          (fun visit next => ObjectDone layout s visit next.clone)
          (by
            intro before visit hvisit hbefore
            obtain ⟨hcmdbuf, hindex⟩ := mem_visitsOf.mp (hvisits.mem_iff.mp hvisit)
            obtain ⟨y, hsubmitted, -⟩ := hcollected.seen_of_cmdbuf visit.1 hcmdbuf
            obtain ⟨next, hnext, hsettled, hdone, hkeeps⟩ :=
              updateObject_spec layout s (through window s.mem stray) hsmall hinv hindex
                hview
                (by
                  intro entry hentry y hdue
                  obtain ⟨m, hm, hmem⟩ := hcollected.range_of_seen visit.1 y
                    ⟨hsubmitted, entry, hentry, hdue⟩
                  rw [hrange] at hm
                  cases hm
                  exact hmem)
                hbefore.1
            exact ⟨next, hnext, ⟨hsettled, fun y hy => hkeeps y (hbefore.2 y hy)⟩, hdone,
              fun other hother object hobject x hx =>
                hkeeps _ (hother object hobject x hx)⟩)
          ⟨hstart, fun y hy => hy⟩
      simp only [hfinal]
      refine ⟨_, rfl, ⟨hsettled.wf, hinv.touched_wf, hinv.touched_inside, ?_,
        hsettled.dirty, hsettled.replayed⟩, rfl, rfl, rfl, ?_⟩
      · intro current hcurrent y hlow hhigh
        refine hsettled.exposed_of_mapped (Option.isSome_iff_exists.mpr ⟨current, hcurrent⟩)
          y (hinv.window_exposed current hcurrent y hlow hhigh)
      · intro cmdbuf hcmdbuf index object hobject x hx
        by_cases hcollectedCmdbuf : cmdbuf ∈ pending.cmdbufs
        · have hlt : index < layout.objects.length :=
            (List.getElem?_eq_some_iff.mp hobject).1
          exact hdone (cmdbuf, index) (hvisits.mem_iff.mpr
            (mem_visitsOf.mpr ⟨hcollectedCmdbuf, hlt⟩)) object hobject x hx
        · refine hkeeps _ ?_
          by_contra hne
          exact hcollectedCmdbuf (hcollected.cmdbuf_of_seen cmdbuf _ ⟨hcmdbuf,
            (object, index), List.mem_zipIdx_iff_getElem?.mpr hobject,
            hclean cmdbuf hcmdbuf index object hobject x hx hne⟩)

/-! ## Whole runs -/

theorem inv_init (layout : Layout) : Inv layout {} := by
  refine ⟨Exposure.wf_empty, fun _ _ => Exposure.wf_empty, ?_, by simp, by simp, ?_⟩
  · intro cmdbuf index object _ x hx
    simp [Exposure.Mem, Exposure.empty] at hx
  · refine ⟨rfl, fun index object hobject _ => ?_⟩
    exact ⟨zeroed, by simp [replayObject, hobject], fun x _ => rfl⟩

/-- A map exposes its whole window. -/
theorem mapMemory_inv {layout : Layout} {s next : State} {offset size : Nat}
    (hinv : Inv layout s) (hoffset : offset < 2 ^ 64) (hsize : size < 2 ^ 64)
    (hmap : mapMemory layout s offset size = some next) : Inv layout next := by
  unfold mapMemory at hmap
  simp only at hmap
  split at hmap
  · cases hmap
  · case _ exposed hadd =>
      cases hmap
      obtain ⟨hwf, hmem⟩ := Exposure.addOs_eq_some hinv.exposed_wf hoffset
        (by split <;> omega) hadd
      refine ⟨hwf, hinv.touched_wf, hinv.touched_inside, ?_, ?_, hinv.replayed⟩
      · intro window hwindow y hlow hhigh
        cases hwindow
        exact (hmem y).mpr (Or.inr ⟨hlow, hhigh⟩)
      · exact fun y hne => (hmem y).mpr (Or.inl (hinv.dirty y hne))

theorem clampMappedFlushRange_lt {window : Option Window} {offset size first last : Nat}
    (hclamp : clampMappedFlushRange window offset size = some (first, last)) :
    first < last ∧ last < 2 ^ 64 := by
  unfold clampMappedFlushRange at hclamp
  cases window with
  | none => cases hclamp
  | some window =>
      simp only at hclamp
      split at hclamp
      · cases hclamp
      · have hlimit := Nat.mod_lt (window.offset + window.size) (show 0 < 2 ^ 64 by omega)
        generalize (window.offset + window.size) % 2 ^ 64 = limit at *
        generalize (if size = wholeSize then limit
          else if size > uint64Max - offset then uint64Max else offset + size) =
          requestedEnd at *
        split at hclamp
        · cases hclamp
        · simp only [Option.some.injEq, Prod.mk.injEq] at hclamp
          omega

theorem flushMappedMemoryRange_inv {layout : Layout} {s next : State}
    {offset size : Nat} (hinv : Inv layout s)
    (hflush : flushMappedMemoryRange s offset size = some next) : Inv layout next := by
  unfold flushMappedMemoryRange at hflush
  split at hflush
  · cases hflush
    exact hinv
  · case _ first last hclamp =>
      have hlt := clampMappedFlushRange_lt hclamp
      split at hflush
      · cases hflush
      · case _ exposed hadd =>
          cases hflush
          obtain ⟨hwf, hmem⟩ := Exposure.addOs_eq_some hinv.exposed_wf (by omega)
            (by omega) hadd
          exact ⟨hwf, hinv.touched_wf, hinv.touched_inside,
            fun window hwindow y hlow hhigh => (hmem y).mpr
              (Or.inl (hinv.window_exposed window hwindow y hlow hhigh)),
            fun y hne => (hmem y).mpr (Or.inl (hinv.dirty y hne)), hinv.replayed⟩

/-- A host write lands in the map, which is exposed. -/
theorem hostWrite_inv {layout : Layout} {s next : State} {pos : Nat} {value : UInt8}
    (hinv : Inv layout s) (hwrite : hostWrite s pos value = some next) :
    Inv layout next := by
  unfold hostWrite at hwrite
  split at hwrite
  · cases hwrite
  · case _ window hwindow =>
      split at hwrite
      · case _ hin =>
          cases hwrite
          refine ⟨hinv.exposed_wf, hinv.touched_wf, hinv.touched_inside,
            hinv.window_exposed, fun y hne => ?_, hinv.replayed⟩
          by_cases hy : y = pos
          · exact hy ▸ hinv.window_exposed window hwindow pos hin.1 hin.2
          · simp only [Function.update_of_ne hy] at hne
            exact hinv.dirty y hne
      · cases hwrite

/-- The part of the invariant that is about the exposures alone. -/
structure Tracked (layout : Layout) (s : State) : Prop where
  exposed_wf : s.exposed.WF
  touched_wf : ∀ cmdbuf index, (s.touched cmdbuf index).WF
  touched_inside : ∀ cmdbuf index object, layout.objects[index]? = some object →
    ∀ x, (s.touched cmdbuf index).Mem x → x < object.size

theorem Inv.tracked {layout : Layout} {s : State} (hinv : Inv layout s) : Tracked layout s :=
  ⟨hinv.exposed_wf, hinv.touched_wf, hinv.touched_inside⟩

/-- A touch changes the touched ranges of one command buffer and object, and keeps them in
the object. -/
theorem touch_tracked {layout : Layout} {s next : State} {cmdbuf index offset size : Nat}
    (htracked : Tracked layout s)
    (htouch : touch layout s cmdbuf index offset size = some next) :
    Tracked layout next ∧ ∃ touched, next = { s with touched := touched } := by
  unfold touch at htouch
  split at htouch
  · cases htouch
  · case _ object hobject =>
      split at htouch
      · cases htouch
        exact ⟨htracked, s.touched, rfl⟩
      · simp only at htouch
        generalize (if size = wholeSize then object.size - offset else size) = size at *
        split at htouch
        · case _ hinside =>
            have hmem := List.mem_of_getElem? hobject
            have hbound := layout.bound_inside object hmem
            have halloc := layout.allocation_lt
            obtain ⟨touched, hadd, hwf, hadded⟩ := Exposure.addOs_spec
              (s.touched cmdbuf index) offset size (htracked.touched_wf cmdbuf index)
              (by omega)
            simp only [hadd] at htouch
            cases htouch
            -- only the entry of this command buffer and object changes
            have hentry : ∀ c i, Function.update s.touched cmdbuf
                (Function.update (s.touched cmdbuf) index touched) c i =
                if c = cmdbuf ∧ i = index then touched else s.touched c i := by
              intro c i
              by_cases hc : c = cmdbuf
              · subst hc
                by_cases hi : i = index
                · subst hi
                  simp
                · simp [hi]
              · simp [hc]
            refine ⟨⟨htracked.exposed_wf, ?_, ?_⟩, _, rfl⟩
            · intro c i
              simp only [hentry]
              split
              · exact hwf
              · exact htracked.touched_wf c i
            · intro c i other hother x hx
              simp only [hentry] at hx
              split at hx
              · case _ heq =>
                  obtain ⟨rfl, rfl⟩ := heq
                  rw [hobject] at hother
                  cases hother
                  rcases (hadded x).mp hx with hx | hx
                  · exact htracked.touched_inside c i object hobject x hx
                  · omega
              · exact htracked.touched_inside c i other hother x hx
        · cases htouch

theorem touch_inv {layout : Layout} {s next : State} {cmdbuf index offset size : Nat}
    (hinv : Inv layout s)
    (htouch : touch layout s cmdbuf index offset size = some next) :
    Inv layout next := by
  obtain ⟨htracked, touched, rfl⟩ := touch_tracked hinv.tracked htouch
  exact ⟨hinv.exposed_wf, htracked.touched_wf, htracked.touched_inside, hinv.window_exposed,
    hinv.dirty, hinv.replayed⟩

theorem submit_eq_some {layout : Layout} {s next : State} {cmdbufs : List Nat}
    {visits : List (Nat × Nat)} {stray : Memory}
    (hsubmit : submit layout s cmdbufs visits stray = some next) :
    visits.Perm (visitsOf layout (queueUpdates layout s cmdbufs).cmdbufs) := by
  unfold submit at hsubmit
  simp only at hsubmit
  split at hsubmit
  · assumption
  · cases hsubmit

/-- **One step.** -/
theorem step_inv {layout : Layout} (hsmall : layout.Small) {s next : State}
    {label : Label} (hinv : Inv layout s) (hend : overhanging layout s label = false)
    (hstep : step layout s label = some next) : Inv layout next := by
  cases label with
  | map offset size =>
      simp only [step] at hstep
      split at hstep
      · case _ hbounds => exact mapMemory_inv hinv hbounds.1 hbounds.2 hstep
      · cases hstep
  | write pos value => exact hostWrite_inv hinv hstep
  | flush offset size =>
      simp only [step] at hstep
      split at hstep
      · exact flushMappedMemoryRange_inv hinv hstep
      · cases hstep
  | unmap =>
      cases hstep
      exact ⟨hinv.exposed_wf, hinv.touched_wf, hinv.touched_inside,
        fun window hwindow => (by cases hwindow), hinv.dirty, hinv.replayed⟩
  | touch cmdbuf index offset size => exact touch_inv hinv hstep
  | submit cmdbufs visits stray =>
      obtain ⟨next', hnext, hkeep, -⟩ := submit_spec layout s hsmall hinv cmdbufs visits
        stray (submit_eq_some hstep) hend
      have hstep : submit layout s cmdbufs visits stray = some next := hstep
      rw [hnext] at hstep
      cases hstep
      exact hkeep

/-- The run has no overhanging submit. -/
def WithinMap (layout : Layout) (labels : List Label) : Prop :=
  Along (step layout) (fun s label => overhanging layout s label = false) {} labels

instance (layout : Layout) (labels : List Label) : Decidable (WithinMap layout labels) :=
  inferInstanceAs (Decidable (Along _ _ _ _))

/-- **The invariant of whole runs.** -/
theorem run_capture (layout : Layout) (hsmall : layout.Small) {labels : List Label}
    {s : State} (hwithin : WithinMap layout labels)
    (hrun : exec (step layout) {} labels = some s) : Inv layout s :=
  exec_invariant (fun _ _ _ hinv hend hstep => step_inv hsmall hinv hend hstep)
    (inv_init layout) hwithin hrun

/-- A submit is never refused by an assertion: after any run, submitting any
command buffers in any visiting order succeeds. -/
theorem run_submit_succeeds (layout : Layout) (hsmall : layout.Small)
    {labels : List Label} {s : State} (hwithin : WithinMap layout labels)
    (hrun : exec (step layout) {} labels = some s) (cmdbufs : List Nat)
    (visits : List (Nat × Nat)) (stray : Memory)
    (hvisits : visits.Perm (visitsOf layout (queueUpdates layout s cmdbufs).cmdbufs))
    (hend : overhanging layout s (.submit cmdbufs visits stray) = false) :
    ∃ next, step layout s (.submit cmdbufs visits stray) = some next := by
  obtain ⟨next, hnext, -⟩ := submit_spec layout s hsmall
    (run_capture layout hsmall hwithin hrun) cmdbufs visits stray hvisits hend
  exact ⟨next, hnext⟩

/-- **No host write is lost.**  After every run each byte where memory and clone
differ is exposed.  Right after a submit the touched bytes of every submitted
command buffer agree with the clone, and the update packets emitted so far,
applied in order through `read_patch`, rebuild them: in a zeroed replay memory
that the objects share as they do at capture, and in a zeroed copy of its own
for an object that overlaps no other. -/
theorem capture_loses_no_host_write (layout : Layout) (hsmall : layout.Small)
    (labels : List Label) (s : State) (hwithin : WithinMap layout labels)
    (hrun : exec (step layout) {} labels = some s) :
    (∀ y, s.mem y ≠ s.clone y → s.exposed.Mem y) ∧
      ∀ before cmdbufs visits stray,
        labels = before ++ [.submit cmdbufs visits stray] →
        ∃ replay, replayMemory layout s.packets = some replay ∧
          ∀ cmdbuf ∈ cmdbufs, ∀ index object,
            layout.objects[index]? = some object →
            ∀ x, (s.touched cmdbuf index).Mem x →
              s.mem (object.offset + x) = s.clone (object.offset + x) ∧
              replay (object.offset + x) = s.mem (object.offset + x) ∧
              (Apart layout index →
                ∃ own, replayObject layout index s.packets = some own ∧
                  own x = s.mem (object.offset + x)) := by
  have hinv := run_capture layout hsmall hwithin hrun
  refine ⟨hinv.dirty, ?_⟩
  rintro before cmdbufs visits stray rfl
  obtain ⟨earlier, hearlier, hsubmit⟩ := exec_snoc_eq_some_iff.mp hrun
  have halong := along_append hwithin hearlier
  have hinvEarlier : Inv layout earlier := run_capture layout hsmall halong.1 hearlier
  have hsubmit : submit layout earlier cmdbufs visits stray = some s := hsubmit
  obtain ⟨next, hnext, -, hmem, -, htouched, hdone⟩ := submit_spec layout earlier hsmall
    hinvEarlier cmdbufs visits stray (submit_eq_some hsubmit) halong.2.1
  rw [hsubmit] at hnext
  cases hnext
  refine ⟨s.clone, hinv.replayed.shared, ?_⟩
  intro cmdbuf hcmdbuf index object hobject x hx
  have hagree : s.mem (object.offset + x) = s.clone (object.offset + x) := by
    rw [htouched] at hx
    rw [hmem]
    exact hdone cmdbuf hcmdbuf index object hobject x hx
  refine ⟨hagree, hagree.symm, fun hapart => ?_⟩
  obtain ⟨own, hown, hsame⟩ := hinv.replayed.own index object hobject hapart
  refine ⟨own, hown, ?_⟩
  rw [hagree]
  exact hsame x (hinv.touched_inside cmdbuf index object hobject x hx)

/-- Two objects side by side. -/
def neighbours : Layout where
  allocationSize := 16
  objects := [⟨0, 8, true⟩, ⟨8, 8, true⟩]
  allocation_lt := by decide
  bound_inside := by decide

/-- Both objects are written and submitted after the unmap. -/
def neighboursRun : List Label :=
  [.map 0 wholeSize, .write 3 7, .write 9 5, .touch 0 0 0 8, .touch 0 1 0 4, .unmap,
    .submit [0] [(0, 1), (0, 0)] zeroed]

theorem capture_loses_no_host_write_neighbours :
    ∃ s, exec (step neighbours) {} neighboursRun = some s ∧
      ∃ replay, replayMemory neighbours s.packets = some replay ∧
        replay 3 = s.mem 3 ∧ s.mem 3 = 7 := by
  have hrun : (exec (step neighbours) {} neighboursRun).isSome = true := by decide
  refine ⟨(exec (step neighbours) {} neighboursRun).get hrun,
    (Option.some_get hrun).symm, ?_⟩
  have htouched : (((exec (step neighbours) {} neighboursRun).get hrun).touched 0 0).Mem 3 ∧
      ((exec (step neighbours) {} neighboursRun).get hrun).mem 3 = 7 := by
    decide +revert
  obtain ⟨replay, hreplay, hbytes⟩ :=
    (capture_loses_no_host_write neighbours (by decide) neighboursRun _ (by decide)
      (Option.some_get hrun).symm).2 (neighboursRun.take 6) [0] [(0, 1), (0, 0)] zeroed
      rfl
  exact ⟨replay, hreplay,
    (hbytes 0 (by decide) 0 ⟨0, 8, true⟩ rfl 3 htouched.1).2.1, htouched.2⟩

/-- Two objects at the same place. -/
def aliased : Layout where
  allocationSize := 8
  objects := [⟨0, 8, true⟩, ⟨0, 8, true⟩]
  allocation_lt := by decide
  bound_inside := by decide

/-- The first visit emits the packet; the second one finds nothing to do. -/
def aliasedRun : List Label :=
  [.map 0 8, .write 0 1, .touch 0 0 0 8, .touch 0 1 0 8,
    .submit [0] [(0, 0), (0, 1)] zeroed]

/-- The current map ends in front of the last byte of the span. -/
def overhangingRun : List Label :=
  [.map 0 wholeSize, .write 8 1, .unmap, .map 0 8, .touch 0 0 0 8, .touch 0 1 0 1,
    .submit [0] [(0, 0), (0, 1)] zeroed]

/-- An object that 32-bit offsets do not reach over. -/
def large : Layout where
  allocationSize := 2 ^ 32 + 8
  objects := [⟨0, 2 ^ 32 + 8, true⟩]
  allocation_lt := by decide
  bound_inside := by decide

def largeRun : List Label :=
  [.map 0 wholeSize, .write (2 ^ 32) 1, .touch 0 0 (2 ^ 32) 8,
    .submit [0] [(0, 0)] zeroed]

/-- Where the three conditions come from.  A copy of its own misses a write that
was recorded for an aliasing object; an overhanging submit records a byte from
outside the map; and an offset of 32 bits misses a large object's tail. -/
theorem capture_conditions_needed :
    (∃ s, exec (step aliased) {} aliasedRun = some s ∧ (s.touched 0 1).Mem 0 ∧
      s.mem 0 = 1 ∧ ∃ own, replayObject aliased 1 s.packets = some own ∧ own 0 = 0) ∧
    (∃ s, exec (step neighbours) {} overhangingRun = some s ∧ (s.touched 0 1).Mem 0 ∧
      s.mem 8 = 1 ∧ s.clone 8 = 0) ∧
    (∃ s, exec (step large) {} largeRun = some s ∧ (s.touched 0 0).Mem (2 ^ 32) ∧
      s.mem (2 ^ 32) = 1 ∧ s.clone (2 ^ 32) = 0) := by
  have hal : (exec (step aliased) {} aliasedRun).isSome = true := by decide
  have hown : (replayObject aliased 1
      ((exec (step aliased) {} aliasedRun).get hal).packets).isSome = true := by
    decide +revert
  have hov : (exec (step neighbours) {} overhangingRun).isSome = true := by decide
  have hla : (exec (step large) {} largeRun).isSome = true := by decide
  refine ⟨⟨_, (Option.some_get hal).symm, ?_, ?_, _, (Option.some_get hown).symm, ?_⟩,
    ⟨_, (Option.some_get hov).symm, ?_, ?_, ?_⟩,
    ⟨_, (Option.some_get hla).symm, ?_, ?_, ?_⟩⟩ <;> decide +revert

end HostMemory
end Lavatube
