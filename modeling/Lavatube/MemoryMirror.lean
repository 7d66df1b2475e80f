import Lavatube.AliasPlacement
import Lavatube.HostMemory
import Lavatube.PlacementSteps

/-!
# Replay memory and the clone

An update packet holds what changed in the clone of a captured memory, by
`write_out_object`; `image_update`, `buffer_update` and `tensor_update` apply it to the
storage that the suballocator gave to the object.  The clone starts as zeroes, so the
storage is cleared in front of the first packet: the members of an alias group when the
memory of the group is reserved, the others by `mem_map`, on a flag that the first
`find_*_memory` takes.

* `State`, `step` — the clones, the suballocator and the bytes in its heaps, with the
  packets in the order of the trace.
* `Mirrors` — the storage of an object holds what the clone holds.
* `Inv`, `step_inv` — what is equal, and what is still zero, in every state of a run.
* `memory_mirrors_clone` — every packet leaves its object equal to the clone, where no check of
  a buffer takes the flag of storage that is not zero.
* `check_takes_init` — such a check leaves the storage wrong.
-/

namespace Lavatube
namespace MemoryMirror

open ByteMemory Transition AliasGroups Suballocator AliasPlacement

/-! ### Data -/

/-- What the trace says of the objects of one device; `size` is `trackedobject::size`. -/
structure Trace where
  device : Nat
  objects : TraceObjects
  size : TrackedObject → Nat
  aliases : Aliases
  prepared : prepareAliasGroups device objects = .ok aliases
  size_le_reqSize : ∀ o ∈ captured device objects, size o ≤ o.reqSize
  size_le_replay : ∀ o ∈ captured device objects, size o ≤ o.reqs.size
  sized : ∀ o ∈ captured device objects, 0 < o.reqs.size

/-- The objects that were bound at capture. -/
abbrev Trace.captured (trace : Trace) : List TrackedObject :=
  AliasGroups.captured trace.device trace.objects

/-- `struct suballoc_location`; `home` and `offset` say what `mapped` points to. -/
structure Location where
  home : HeapRef
  offset : Nat
  size : Nat
  needsInit : Bool
  mapped : Bool
  deriving DecidableEq, Repr

/-- The suballocator with the bytes in its heaps, the clones of the captured memories by
index, and the objects that have a backing memory at capture. -/
structure State where
  suballocator : Suballocator.State
  bytes : HeapRef → Memory
  clone : Nat → Memory := fun _ => zeroed
  backed : List (ObjectType × Nat) := []

/-- The packets of the trace, and the progress of a search for space.  `changed` is the
mapped memory by position in the captured memory of the object. -/
inductive Label where
  | place (label : Suballocator.Label)
  | update (o : TrackedObject) (changed : Memory) (offset size : Nat)
  | assertBuffer (o : TrackedObject) (offset size checksum : Nat)

/-! ### Finding the memory of an object -/

/-- `VK_MEMORY_PROPERTY_HOST_VISIBLE_BIT`. -/
def hostVisibleBit : BitVec 32 := 0x2

/-- Whether the heap has a `mapped` pointer. -/
def isMapped (config : Config) (st : Suballocator.State) (home : HeapRef) : Bool :=
  (st.heap home).any fun h =>
    h.mem && (config.memoryTypes.getD h.memoryTypeIndex 0 &&& hostVisibleBit != 0)

/-- `find_image_memory`, `find_buffer_memory` and `find_tensor_memory` on the table of the
type; the lookup is initialized afterwards. -/
def findMemory (config : Config) (st : Suballocator.State) (type : ObjectType) (index : Nat) :
    Option (Location × Suballocator.State) :=
  match st.lookups.find (.object type index) with
  | none => none
  | some l =>
      match l.home with
      | none => none
      | some home =>
          some
            ({ home := home, offset := l.offset, size := l.size, needsInit := !l.initialized
               mapped := isMapped config st home },
              markInitialized st type index l)

/-- `find_image_memory`. -/
def findImageMemory (config : Config) (st : Suballocator.State) (index : Nat) :
    Option (Location × Suballocator.State) :=
  findMemory config st .image index

/-- `find_buffer_memory`. -/
def findBufferMemory (config : Config) (st : Suballocator.State) (index : Nat) :
    Option (Location × Suballocator.State) :=
  findMemory config st .buffer index

/-- `find_tensor_memory`. -/
def findTensorMemory (config : Config) (st : Suballocator.State) (index : Nat) :
    Option (Location × Suballocator.State) :=
  findMemory config st .tensor index

/-- `mem_map`: the bytes of the heap that the object is in. -/
def memMap (loc : Location) (heapBytes : Memory) : Option Memory :=
  if loc.mapped then
    some (if loc.needsInit then copy heapBytes zeroed loc.offset loc.size else heapBytes)
  else
    none

/-! ### Update packets -/

/-- `read_patch` through the pointer of `mem_map`. -/
def applyPatch (st : State) (found : Option (Location × Suballocator.State))
    (patch : List UInt8) : Option State :=
  match found with
  | none => none
  | some (loc, suballocator) =>
      match memMap loc (st.bytes loc.home) with
      | none => none
      | some mem =>
          match Patch.readPatch (shift mem loc.offset) loc.size patch with
          | some (buf, _, []) =>
              some { st with
                suballocator := suballocator
                bytes := Function.update st.bytes loc.home (rebase mem loc.offset buf) }
          | _ => none

/-- `image_update`. -/
def imageUpdate (config : Config) (st : State) (index : Nat) (patch : List UInt8) :
    Option State :=
  applyPatch st (findImageMemory config st.suballocator index) patch

/-- `buffer_update`. -/
def bufferUpdate (config : Config) (st : State) (index : Nat) (patch : List UInt8) :
    Option State :=
  applyPatch st (findBufferMemory config st.suballocator index) patch

/-- `tensor_update`. -/
def tensorUpdate (config : Config) (st : State) (index : Nat) (patch : List UInt8) :
    Option State :=
  applyPatch st (findTensorMemory config st.suballocator index) patch

/-- The packet goes to the function for the type of its object. -/
def objectUpdate (config : Config) (st : State) (type : ObjectType) (index : Nat)
    (patch : List UInt8) : Option State :=
  match type with
  | .image => imageUpdate config st index patch
  | .buffer => bufferUpdate config st index patch
  | .tensor => tensorUpdate config st index patch
  | _ => none

/-- What `write_out_object` emits for a window of the object. -/
def packetsOf (st : State) (o : TrackedObject) (changed : Memory) (offset size : Nat) :
    List HostMemory.Update :=
  (HostMemory.writeOutObject o.index o.offset (st.clone o.backingIndex) changed offset size).2

/-- The clone behind `write_out_object`. -/
def cloneAfter (st : State) (o : TrackedObject) (changed : Memory) (offset size : Nat) :
    Memory :=
  (HostMemory.writeOutObject o.index o.offset (st.clone o.backingIndex) changed offset size).1

/-- A window of an object is written out and its packet, if there is one, applied. -/
def update (config : Config) (st : State) (o : TrackedObject) (changed : Memory)
    (offset size : Nat) : Option State :=
  let written := { st with
    clone := Function.update st.clone o.backingIndex (cloneAfter st o changed offset size) }
  match packetsOf st o changed offset size with
  | [] => some written
  | packet :: _ => objectUpdate config written o.objectType o.index packet.bytes

/-! ### Checks of a buffer -/

/-- The loop of `adler32`. -/
def adler32Loop : Nat → Nat → List UInt8 → Nat
  | a, b, [] => b <<< 16 ||| a
  | a, b, byte :: rest =>
      adler32Loop ((a + byte.toNat) % 65521) ((b + (a + byte.toNat) % 65521) % 65521) rest

/-- `adler32`. -/
def adler32 (data : List UInt8) : Nat := adler32Loop 1 0 data

/-- `checksum_buffer_range` without markings: the checksum, and the suballocator with the
lookup that has been read. -/
def checksumBufferRange (config : Config) (trace : Trace) (st : State) (o : TrackedObject)
    (offset size : Nat) : Option (Nat × Suballocator.State) :=
  match findBufferMemory config st.suballocator o.index with
  | none => none
  | some (loc, suballocator) =>
      let size :=
        if size = HostMemory.wholeSize then (trace.size o + 2 ^ 64 - offset) % 2 ^ 64 else size
      if size = 0 then some (adler32 [], suballocator)
      else if loc.mapped then
        some (adler32 (slice (st.bytes loc.home) (loc.offset + offset) size), suballocator)
      else none

/-- `vkAssertBufferARM`: replay aborts unless the checksum is the captured one. -/
def assertBuffer (config : Config) (trace : Trace) (st : State) (o : TrackedObject)
    (offset size checksum : Nat) : Option State :=
  match checksumBufferRange config trace st o offset size with
  | none => none
  | some (checksumNew, suballocator) =>
      if checksum = checksumNew then some { st with suballocator := suballocator } else none

/-! ### Placing -/

/-- The memory of an alias group is cleared when `add_trackedobject` has reserved it. -/
def clearReserved (config : Config) (before after : Suballocator.State) (data : TrackedObject)
    (bytes : HeapRef → Memory) : HeapRef → Memory :=
  match before.aliases.getAliasLookup data.objectType data.index with
  | .ok (some ⟨some group, _⟩) =>
      match before.groupHome group, after.groupHome group, before.aliases.groups[group]? with
      | none, some home, some g =>
          if isMapped config after home then
            Function.update bytes home (copy (bytes home) zeroed 0 g.size)
          else bytes
      | _, _, _ => bytes
  | _ => bytes

/-- A call of the suballocator.  At capture no object is bound twice. -/
def place (config : Config) (st : State) (label : Suballocator.Label) : Option State :=
  match label with
  | .addTrackedobject tid data =>
      if data.key ∈ st.backed then none
      else
        (addTrackedobject config st.suballocator tid data).map fun next =>
          { st with
            suballocator := next
            bytes := clearReserved config st.suballocator next data st.bytes
            backed := data.key :: st.backed }
  | label => (Suballocator.step config st.suballocator label).map fun next =>
      { st with suballocator := next }

/-- One step of replay, with what capture did for it. -/
def step (config : Config) (trace : Trace) (st : State) : Label → Option State
  | .place label => place config st label
  | .update o changed offset size => update config st o changed offset size
  | .assertBuffer o offset size checksum =>
      assertBuffer config trace st o offset size checksum

/-- The suballocator as `create` leaves it; the driver may hand out memory with any bytes. -/
def start (trace : Trace) (threads sessions : Nat) (bytes : HeapRef → Memory) : State where
  suballocator := create threads trace.objects.images.length trace.objects.buffers.length
    trace.objects.tensors.length sessions trace.aliases
  bytes := bytes

/-- The calls are about objects of the trace, and windows are inside their objects. -/
def Label.Valid (trace : Trace) : Label → Prop
  | .place label => label.Valid ∧ Places trace.captured label
  | .update o _ offset size => o ∈ trace.captured ∧ offset + size ≤ trace.size o
  | .assertBuffer o _ _ _ => o ∈ trace.captured ∧ o.objectType = .buffer

/-- The first bytes of the storage of the object are those of its captured range in the
clone. -/
def Mirrors (trace : Trace) (st : State) (o : TrackedObject) : Prop :=
  ∃ l home, st.suballocator.lookups.find (.object o.objectType o.index) = some l ∧
    l.home = some home ∧
    ∀ x < trace.size o, st.bytes home (l.offset + x) = st.clone o.backingIndex (o.offset + x)

/-- A check of a buffer takes the flag of its lookup only where the storage is zero. -/
def CheckSafe (trace : Trace) (st : State) : Label → Prop
  | .assertBuffer o _ _ _ =>
      ∀ l home, st.suballocator.lookups.find (.object .buffer o.index) = some l →
        l.home = some home → l.initialized = false →
        ∀ x < trace.size o, st.bytes home (l.offset + x) = 0
  | _ => True

/-! ### One packet -/

section Packets

variable {config : Config} {trace : Trace} {st st' : State} {o o' : TrackedObject} {l : Lookup}
  {home : HeapRef} {changed : Memory} {offset size : Nat}

/-- Captured objects are images, buffers and tensors. -/
theorem objectUpdate_eq (ho : o ∈ trace.captured) (index : Nat) (patch : List UInt8) :
    objectUpdate config st o.objectType index patch =
      applyPatch st (findMemory config st.suballocator o.objectType index) patch := by
  obtain ⟨himage | hbuffer | htensor, -⟩ := mem_captured_iff.mp ho
  · rw [trace.objects.image_type o himage]
    rfl
  · rw [trace.objects.buffer_type o hbuffer]
    rfl
  · rw [trace.objects.tensor_type o htensor]
    rfl

theorem findMemory_eq_some {config : Config} {st : Suballocator.State} {type : ObjectType}
    {index : Nat} {found : Location × Suballocator.State}
    (hfound : findMemory config st type index = some found) :
    ∃ l home, st.lookups.find (.object type index) = some l ∧ l.home = some home ∧
      found = (⟨home, l.offset, l.size, !l.initialized, isMapped config st home⟩,
        markInitialized st type index l) := by
  unfold findMemory at hfound
  split at hfound
  · cases hfound
  · case _ l hl =>
    split at hfound
    · cases hfound
    · case _ home hhome =>
      cases hfound
      exact ⟨l, home, hl, hhome, rfl⟩

theorem findMemory_of_find {config : Config} {st : Suballocator.State} {type : ObjectType}
    {index : Nat} (hl : st.lookups.find (.object type index) = some l)
    (hhome : l.home = some home) :
    findMemory config st type index =
      some (⟨home, l.offset, l.size, !l.initialized, isMapped config st home⟩,
        markInitialized st type index l) := by
  simp [findMemory, hl, hhome]

/-- Without a packet the clone stays. -/
theorem cloneAfter_of_no_packet (hnone : packetsOf st o changed offset size = []) :
    cloneAfter st o changed offset size = st.clone o.backingIndex := by
  unfold packetsOf HostMemory.writeOutObject at hnone
  unfold cloneAfter HostMemory.writeOutObject
  simp only at hnone ⊢
  split
  · rfl
  · case _ hdiffers =>
    rw [if_neg hdiffers] at hnone
    cases hnone

/-- The bytes of a heap in front of a patch: the first one finds the storage cleared. -/
def prepared (l : Lookup) (heapBytes : Memory) : Memory :=
  if l.initialized then heapBytes else copy heapBytes zeroed l.offset l.size

/-- What a packet changes. -/
def patched (st : State) (o : TrackedObject) (l : Lookup) (home : HeapRef) (changed : Memory)
    (offset size : Nat) : State where
  suballocator := markInitialized st.suballocator o.objectType o.index l
  bytes := Function.update st.bytes home (rebase (prepared l (st.bytes home)) l.offset
    (Patch.rewrite (shift (st.clone o.backingIndex) o.offset) (shift changed o.offset) offset size
      (shift (prepared l (st.bytes home)) l.offset)))
  clone := Function.update st.clone o.backingIndex
    (copy (st.clone o.backingIndex) changed (o.offset + offset) size)
  backed := st.backed

/-- **A packet is applied** to the storage of its object. -/
theorem update_of_packet (ho : o ∈ trace.captured)
    (hl : st.suballocator.lookups.find (.object o.objectType o.index) = some l)
    (hhome : l.home = some home) (hmapped : isMapped config st.suballocator home = true)
    (hinside : offset + size ≤ l.size) (hsmall : l.size < 2 ^ 32)
    (hpacket : packetsOf st o changed offset size ≠ []) :
    update config st o changed offset size =
      some (patched st o l home changed offset size) := by
  have hclone : cloneAfter st o changed offset size =
      copy (st.clone o.backingIndex) changed (o.offset + offset) size :=
    HostMemory.writeOutObject_clone o.index o.offset _ _ _ _ (by omega)
  obtain ⟨hnone, -⟩ | ⟨bytes, hsome, hread⟩ := HostMemory.writeOutObject_rewrite o.index o.offset
    (st.clone o.backingIndex) changed offset size (by omega)
  · exact absurd hnone hpacket
  · have hpackets : packetsOf st o changed offset size = [⟨o.index, bytes⟩] := hsome
    obtain ⟨count, hread⟩ := hread (shift (prepared l (st.bytes home)) l.offset) l.size
      (.inr hinside)
    unfold update
    simp only [hpackets, hclone]
    rw [objectUpdate_eq ho, findMemory_of_find hl hhome]
    unfold applyPatch memMap
    simp only [hmapped, if_true]
    have hprepared : (if (!l.initialized) = true then
        copy (st.bytes home) zeroed l.offset l.size else st.bytes home) =
          prepared l (st.bytes home) := by
      unfold prepared
      cases l.initialized <;> rfl
    rw [hprepared, hread]
    rfl

/-- A packet is only applied to an object that has mapped memory. -/
theorem update_eq_some (ho : o ∈ trace.captured)
    (hupdate : update config st o changed offset size = some st') :
    (packetsOf st o changed offset size = [] ∧ st' = st) ∨
      (packetsOf st o changed offset size ≠ [] ∧ ∃ l home,
        st.suballocator.lookups.find (.object o.objectType o.index) = some l ∧
          l.home = some home ∧ isMapped config st.suballocator home = true) := by
  unfold update at hupdate
  simp only at hupdate
  split at hupdate
  · case _ hnone =>
    cases hupdate
    refine .inl ⟨hnone, ?_⟩
    rw [cloneAfter_of_no_packet hnone, Function.update_eq_self]
  · case _ packet rest hsome =>
    refine .inr ⟨by rw [hsome]; simp, ?_⟩
    rw [objectUpdate_eq ho] at hupdate
    unfold applyPatch at hupdate
    split at hupdate
    · cases hupdate
    · case _ loc suballocator hfound =>
      obtain ⟨l, home, hl, hhome, hpair⟩ := findMemory_eq_some hfound
      cases hpair
      refine ⟨l, home, hl, hhome, ?_⟩
      by_contra hunmapped
      simp [memMap, hunmapped] at hupdate

end Packets

/-! ### What a packet leaves alone -/

/-- The captured bytes of the object are zero in the clone. -/
def Untouched (trace : Trace) (st : State) (o : TrackedObject) : Prop :=
  ∀ x < trace.size o, st.clone o.backingIndex (o.offset + x) = 0

/-- The bytes from `offset` on in a heap are those of the object in the clone. -/
def Holds (trace : Trace) (st : State) (o : TrackedObject) (home : HeapRef) (offset : Nat) :
    Prop :=
  ∀ x < trace.size o, st.bytes home (offset + x) = st.clone o.backingIndex (o.offset + x)

/-- No group has the object. -/
def Ungrouped (trace : Trace) (o : TrackedObject) : Prop :=
  ∀ group, ¬ InGroup trace.aliases group o

section Frames

variable {config : Config} {trace : Trace} {st st' : State} {o o' : TrackedObject} {l : Lookup}
  {home home' : HeapRef} {changed : Memory} {offset size offset' position : Nat}

theorem prepared_of_initialized (hinit : l.initialized = true) (heapBytes : Memory) :
    prepared l heapBytes = heapBytes := if_pos hinit

/-- Behind and in front of the storage nothing is cleared. -/
theorem prepared_outside (heapBytes : Memory)
    (hout : position < l.offset ∨ l.offset + l.size ≤ position) :
    prepared l heapBytes position = heapBytes position := by
  unfold prepared
  split
  · rfl
  · exact if_neg (by omega)

/-- A packet changes bytes of its window only, once the storage is cleared. -/
theorem patched_bytes_kept
    (hout : ¬ (l.offset + offset ≤ position ∧ position < l.offset + offset + size)) :
    (patched st o l home changed offset size).bytes home position =
      prepared l (st.bytes home) position := by
  unfold patched
  simp only [Function.update_self]
  unfold rebase
  by_cases hle : l.offset ≤ position
  · rw [if_pos hle]
    obtain ⟨-, hlow, hhigh⟩ | ⟨hkeep, -⟩ := Patch.applied_rewrite
      (shift (st.clone o.backingIndex) o.offset) (shift changed o.offset) offset size
      (shift (prepared l (st.bytes home)) l.offset) (position - l.offset)
    · omega
    · rw [hkeep]
      unfold shift
      rw [Nat.add_sub_cancel' hle]
  · rw [if_neg hle]

/-- Nothing outside of the storage changes. -/
theorem patched_bytes_outside (hinside : offset + size ≤ l.size)
    (hout : home' ≠ home ∨ position < l.offset ∨ l.offset + l.size ≤ position) :
    (patched st o l home changed offset size).bytes home' position = st.bytes home' position := by
  by_cases hhome : home' = home
  · subst hhome
    have hposition := hout.resolve_left fun hne => hne rfl
    rw [patched_bytes_kept (by omega), prepared_outside _ hposition]
  · exact congrFun (Function.update_of_ne hhome _ _) position

/-- The clone changes in the window only. -/
theorem patched_clone_kept {memory : Nat} (hout : memory ≠ o.backingIndex ∨
      ¬ (o.offset + offset ≤ position ∧ position < o.offset + offset + size)) :
    (patched st o l home changed offset size).clone memory position = st.clone memory position := by
  by_cases hmemory : memory = o.backingIndex
  · subst hmemory
    refine (congrFun (Function.update_self ..) position).trans (if_neg ?_)
    exact hout.resolve_left fun hne => hne rfl
  · exact congrFun (Function.update_of_ne hmemory _ _) position

/-- The clone of an object that does not overlap the one of the packet stays. -/
theorem patched_clone_apart (ho : o ∈ trace.captured) (ho' : o' ∈ trace.captured)
    (hinside : offset + size ≤ trace.size o) (hapart : ¬ CaptureOverlap o o') {x : Nat}
    (hx : x < trace.size o') :
    (patched st o l home changed offset size).clone o'.backingIndex (o'.offset + x) =
      st.clone o'.backingIndex (o'.offset + x) := by
  apply patched_clone_kept
  have hsize := trace.size_le_reqSize o ho
  have hsize' := trace.size_le_reqSize o' ho'
  by_cases hmemory : o'.backingIndex = o.backingIndex
  · right
    intro hin
    exact hapart ⟨hmemory.symm, by omega, by omega⟩
  · exact .inl hmemory

/-- **The object of the packet** holds the clone if it did when its storage was prepared. -/
theorem patched_holds_self
    (hbefore : ∀ x < trace.size o, prepared l (st.bytes home) (l.offset + x) =
      st.clone o.backingIndex (o.offset + x)) :
    Holds trace (patched st o l home changed offset size) o home l.offset := by
  intro x hx
  by_cases hwindow : offset ≤ x ∧ x < offset + size
  · -- a byte of the window is the changed one in both
    have hclone : (patched st o l home changed offset size).clone o.backingIndex (o.offset + x) =
        changed (o.offset + x) :=
      (congrFun (Function.update_self ..) _).trans (if_pos (by omega))
    have hstorage : (patched st o l home changed offset size).bytes home (l.offset + x) =
        shift changed o.offset x := by
      unfold patched
      simp only [Function.update_self]
      unfold rebase
      rw [if_pos (by omega), Nat.add_sub_cancel_left]
      exact (Patch.applied_rewrite _ _ _ _ _).eq_changed hwindow.1 hwindow.2 (hbefore x hx)
    rw [hclone, hstorage]
    rfl
  · rw [patched_bytes_kept (by omega), patched_clone_kept (.inr (by omega))]
    exact hbefore x hx

/-- Another member of the group holds the clone as before: its bytes in the storage are as far
from those of the object as its bytes in the clone. -/
theorem patched_holds_member (hinit : l.initialized = true)
    (hinside : offset + size ≤ trace.size o) (hmemory : o'.backingIndex = o.backingIndex)
    (hdistance : l.offset + o'.offset = offset' + o.offset)
    (hself : Holds trace st o home l.offset) (hother : Holds trace st o' home offset') :
    Holds trace (patched st o l home changed offset size) o' home offset' := by
  intro x hx
  have hprepared := prepared_of_initialized hinit
  by_cases hwindow : l.offset + offset ≤ offset' + x ∧ offset' + x < l.offset + offset + size
  · have hholds : Holds trace (patched st o l home changed offset size) o home l.offset :=
      patched_holds_self fun y hy => by rw [hprepared]; exact hself y hy
    have hbyte := hholds (offset' + x - l.offset) (by omega)
    have hstorage : l.offset + (offset' + x - l.offset) = offset' + x := by omega
    have hclone : o.offset + (offset' + x - l.offset) = o'.offset + x := by omega
    rw [hstorage, hclone] at hbyte
    rw [hmemory]
    exact hbyte
  · rw [patched_bytes_kept hwindow, hprepared, patched_clone_kept (.inr (by omega))]
    exact hother x hx

/-- An object with storage of its own that overlaps nothing holds the clone as before. -/
theorem patched_holds_apart (ho : o ∈ trace.captured) (ho' : o' ∈ trace.captured)
    (hinside : offset + size ≤ trace.size o) (hroom : offset + size ≤ l.size)
    (hapart : ¬ CaptureOverlap o o')
    (hout : home' ≠ home ∨ offset' + trace.size o' ≤ l.offset ∨ l.offset + l.size ≤ offset')
    (hother : Holds trace st o' home' offset') :
    Holds trace (patched st o l home changed offset size) o' home' offset' := by
  intro x hx
  have hposition : home' ≠ home ∨ offset' + x < l.offset ∨ l.offset + l.size ≤ offset' + x :=
    hout.imp_right fun hout => by omega
  rw [patched_clone_apart ho ho' hinside hapart hx, patched_bytes_outside hroom hposition]
  exact hother x hx

theorem patched_untouched (ho : o ∈ trace.captured) (ho' : o' ∈ trace.captured)
    (hinside : offset + size ≤ trace.size o) (hapart : ¬ CaptureOverlap o o')
    (huntouched : Untouched trace st o') :
    Untouched trace (patched st o l home changed offset size) o' := by
  intro x hx
  rw [patched_clone_apart ho ho' hinside hapart hx]
  exact huntouched x hx

end Frames

/-! ### Who shares storage -/

section Sharing

variable {config : Config} {trace : Trace} {st : Suballocator.State} {o o' : TrackedObject}
  {g : Grant} {group group' offset offset' : Nat} {home : HeapRef}

theorem Trace.formed (trace : Trace) :
    ∃ formed, Formed trace.device trace.objects trace.aliases formed := prepare_spec trace.prepared

theorem sameGroup_of_overlap (ho : o ∈ trace.captured) (ho' : o' ∈ trace.captured) (hne : o ≠ o')
    (hoverlap : CaptureOverlap o o') : SameGroup trace.aliases o o' := by
  obtain ⟨formed, hformed⟩ := trace.formed
  exact (hformed.sameGroup_iff_connected ho ho' hne).mpr (.single ⟨ho, ho', hoverlap⟩)

theorem apart_of_ungrouped (ho : o ∈ trace.captured) (ho' : o' ∈ trace.captured) (hne : o ≠ o')
    (hungrouped : Ungrouped trace o') : ¬ CaptureOverlap o o' := by
  intro hoverlap
  obtain ⟨group, -, hin⟩ := sameGroup_of_overlap ho ho' hne hoverlap
  exact hungrouped group hin

/-- The members of a group are in one captured memory. -/
theorem group_backingIndex (ho : o ∈ trace.captured) (ho' : o' ∈ trace.captured)
    (hin : InGroup trace.aliases group o) (hin' : InGroup trace.aliases group o') :
    o'.backingIndex = o.backingIndex := by
  obtain ⟨formed, hformed⟩ := trace.formed
  by_cases heq : o = o'
  · rw [heq]
  · have hsame : SameGroup trace.aliases o o' := ⟨group, hin, hin'⟩
    exact (Connected.backingIndex ((hformed.sameGroup_iff_connected ho ho' heq).mp hsame)).symm

theorem group_fits (ho : o ∈ trace.captured)
    (hlookup : trace.aliases.lookup o.key = some ⟨some group, offset⟩) :
    ∃ x, trace.aliases.groups[group]? = some x ∧ offset + o.reqs.size ≤ x.size := by
  obtain ⟨formed, hformed⟩ := trace.formed
  obtain ⟨x, members, hx, -, hmem, hdescribes, hoffset⟩ := hformed.lookup_spec ho hlookup
  have hfits := hdescribes.fits o hmem
  exact ⟨x, hx, by omega⟩

/-- A live object is a member or has storage of its own, as the groups say. -/
theorem single_iff_ungrouped (hsources : Sources trace.captured trace.aliases st)
    (ho : o ∈ trace.captured) (hlive : Live st o g) :
    g.entry.aliasMember = false ↔ Ungrouped trace o := by
  rw [← Bool.not_eq_true, (hsources.live ho hlive).2, not_exists]
  rfl

/-- A live object is smaller than a gigabyte. -/
theorem live_small (hinv : Suballocator.Inv config st)
    (hsources : Sources trace.captured trace.aliases st) (ho : o ∈ trace.captured)
    (hlive : Live st o g) : o.reqs.size < 1024 * 1024 * 1024 := by
  have hsize := (hsources.live ho hlive).1
  cases hmember : g.entry.aliasMember with
  | false =>
      obtain ⟨-, -, h, hheap, hmem, -⟩ := hinv.placed _ g hlive hmember
      obtain ⟨hok, -⟩ := hinv.heaps _ h hheap
      have hinside := hok.inside _ hmem
      have hsmall := hok.small
      unfold Suballocation.stop at hinside
      omega
  | true =>
      obtain ⟨group, hlookup, hhome⟩ := member_lookup hinv hsources hlive hmember
      obtain ⟨-, h, x, hheap, -, hx, htotal⟩ := hinv.homes group _ hhome
      obtain ⟨x', hx', hfits⟩ := group_fits ho hlookup
      rw [hsources.aliases, hx'] at hx
      cases hx
      have hsmall := (hinv.heaps _ h hheap).1.small
      omega

/-- What is searched for is in no group. -/
theorem ungrouped_of_search {tid : Nat} {search : Search} (hinv : Suballocator.Inv config st)
    (hsources : Sources trace.captured trace.aliases st) (ho : o ∈ trace.captured)
    (hsearch : st.searches tid = some search)
    (hkey : search.request.sub.key = .object o.objectType o.index) : Ungrouped trace o := by
  intro group hin
  have hsingle := (hinv.searches tid search hsearch).2.single
  unfold Suballocation.key at hkey
  split at hkey
  · cases hkey
  · case _ htype =>
    simp only [Key.object.injEq] at hkey
    obtain hsession | ⟨x, hx, hxkey, -, hmember⟩ := hsources.searches tid search hsearch
    · exact htype hsession
    · cases key_injective hx ho (hxkey.trans (Prod.ext hkey.1 hkey.2))
      rw [hmember.mpr ⟨group, hin⟩] at hsingle
      cases hsingle

/-- The lookup of a live object. -/
theorem live_of_find {l : Lookup} (hinv : Suballocator.Inv config st)
    (hsources : Sources trace.captured trace.aliases st) (ho : o ∈ trace.captured)
    (hl : st.lookups.find (.object o.objectType o.index) = some l) (hhome : l.home = some home) :
    ∃ g, Live st o g ∧ g.home = home ∧ g.entry.offset = l.offset ∧ l.size = o.reqs.size := by
  obtain ⟨g, hlive⟩ := hinv.known _ l home hl hhome
  obtain ⟨l', hl', hlocated, hoffset, hsize, -⟩ := hinv.located _ g hlive
  rw [hl] at hl'
  cases hl'
  rw [hhome] at hlocated
  exact ⟨g, hlive, (Option.some.inj hlocated).symm, hoffset.symm,
    hsize.trans (hsources.live ho hlive).1⟩

end Sharing

/-! ### The invariant -/

/-- What the lookups, the heaps and the clones of a run have to do with each other.  The bytes
of a captured range are zero until storage for them is in use; from then on the storage holds
what the clone holds. -/
structure Inv (config : Config) (trace : Trace) (st : State) : Prop where
  heaps : Suballocator.Inv config st.suballocator
  sources : Sources trace.captured trace.aliases st.suballocator
  backed : ∀ o ∈ trace.captured, ∀ g, Live st.suballocator o g → o.key ∈ st.backed
  pending : ∀ o ∈ trace.captured, ∀ tid search, st.suballocator.searches tid = some search →
    search.request.sub.key = .object o.objectType o.index →
      o.key ∈ st.backed ∧ (∀ g, ¬ Live st.suballocator o g) ∧ Untouched trace st o
  apart : ∀ o ∈ trace.captured, ∀ tid tid' search search',
    st.suballocator.searches tid = some search → st.suballocator.searches tid' = some search' →
      search.request.sub.key = .object o.objectType o.index →
        search'.request.sub.key = .object o.objectType o.index → tid = tid'
  waiting : ∀ o ∈ trace.captured, o.key ∉ st.backed → Ungrouped trace o → Untouched trace st o
  member : ∀ o ∈ trace.captured, ∀ g l, Live st.suballocator o g → g.entry.aliasMember = true →
    st.suballocator.lookups.find (.object o.objectType o.index) = some l → l.initialized = true
  single : ∀ o ∈ trace.captured, ∀ g l, Live st.suballocator o g → g.entry.aliasMember = false →
    st.suballocator.lookups.find (.object o.objectType o.index) = some l →
      if l.initialized then Holds trace st o g.home g.entry.offset else Untouched trace st o
  reserved : ∀ o ∈ trace.captured, ∀ group offset home,
    trace.aliases.lookup o.key = some ⟨some group, offset⟩ →
      st.suballocator.groupHome group = some home → isMapped config st.suballocator home = true →
        Holds trace st o home offset
  unreserved : ∀ o ∈ trace.captured, ∀ group, InGroup trace.aliases group o →
    st.suballocator.groupHome group = none → Untouched trace st o

section Steps

variable {config : Config} {trace : Trace} {st st' : State} {o o' : TrackedObject} {l : Lookup}
  {home : HeapRef} {changed : Memory} {offset size : Nat} {g g' : Grant}

theorem start_inv (config : Config) (trace : Trace) (threads sessions : Nat)
    (bytes : HeapRef → Memory) : Inv config trace (start trace threads sessions bytes) := by
  obtain ⟨formed, hformed⟩ := trace.formed
  have hclone : ∀ o, Untouched trace (start trace threads sessions bytes) o := fun _ _ _ => rfl
  exact
    { heaps := create_inv config _ _ _ _ _ (group_sized hformed trace.sized)
      sources := create_sources ..
      backed := fun _ _ _ hlive => by cases hlive
      pending := fun _ _ _ _ hsearch => by cases hsearch
      apart := fun _ _ _ _ _ _ hsearch => by cases hsearch
      waiting := fun o _ _ _ => hclone o
      member := fun _ _ _ _ hlive => by cases hlive
      single := fun _ _ _ _ hlive => by cases hlive
      reserved := fun _ _ _ _ _ _ hhome => by cases hhome
      unreserved := fun o _ _ _ _ => hclone o }

/-! ### A packet -/

/-- What was in the storage when it was prepared for a packet. -/
theorem prepared_holds (hinv : Inv config trace st) (ho : o ∈ trace.captured)
    (hl : st.suballocator.lookups.find (.object o.objectType o.index) = some l)
    (hhome : l.home = some home) (hmapped : isMapped config st.suballocator home = true) :
    ∀ x < trace.size o, prepared l (st.bytes home) (l.offset + x) =
      st.clone o.backingIndex (o.offset + x) := by
  intro x hx
  obtain ⟨g, hlive, rfl, hoffset, hsize⟩ := live_of_find hinv.heaps hinv.sources ho hl hhome
  cases hmember : g.entry.aliasMember with
  | true =>
      obtain ⟨group, hlookup, hreserved⟩ :=
        member_lookup hinv.heaps hinv.sources hlive hmember
      rw [prepared_of_initialized (hinv.member o ho g l hlive hmember hl), ← hoffset]
      exact hinv.reserved o ho group _ _ hlookup hreserved hmapped x hx
  | false =>
      have hsingle := hinv.single o ho g l hlive hmember hl
      cases hinit : l.initialized with
      | true =>
          rw [hinit, if_pos rfl] at hsingle
          rw [prepared_of_initialized hinit, ← hoffset]
          exact hsingle x hx
      | false =>
          -- the storage is cleared, and the clone has no bytes of the object yet
          rw [hinit, if_neg Bool.false_ne_true] at hsingle
          have hroom := trace.size_le_replay o ho
          unfold prepared
          rw [hinit, if_neg Bool.false_ne_true, hsingle x hx]
          exact if_pos (by omega)

/-- The group of an object has its memory, and the lookup is initialized. -/
theorem group_of_live (hinv : Inv config trace st) (ho : o ∈ trace.captured)
    (hlive : Live st.suballocator o g)
    (hl : st.suballocator.lookups.find (.object o.objectType o.index) = some l) {group : Nat}
    (hin : InGroup trace.aliases group o) :
    trace.aliases.lookup o.key = some ⟨some group, g.entry.offset⟩ ∧
      st.suballocator.groupHome group = some g.home ∧ l.initialized = true := by
  have hmember : g.entry.aliasMember = true := (hinv.sources.live ho hlive).2.mpr ⟨group, hin⟩
  obtain ⟨group', hlookup, hreserved⟩ := member_lookup hinv.heaps hinv.sources hlive hmember
  cases inGroup_unique hin ⟨_, hlookup⟩
  exact ⟨hlookup, hreserved, hinv.member o ho g l hlive hmember hl⟩

/-- The storage of an object without a group is apart from that of every other one. -/
theorem storage_apart (hinv : Inv config trace st) (ho : o ∈ trace.captured)
    (ho' : o' ∈ trace.captured) (hne : o ≠ o') (hlive : Live st.suballocator o g)
    (hlive' : Live st.suballocator o' g') (hun : Ungrouped trace o') :
    g'.home ≠ g.home ∨ g'.entry.offset + trace.size o' ≤ g.entry.offset ∨
      g.entry.offset + o.reqs.size ≤ g'.entry.offset := by
  obtain ⟨formed, hformed⟩ := trace.formed
  obtain ⟨hconnected, -⟩ | ⟨-, hnot⟩ :=
    live_cases hinv.heaps hinv.sources hformed ho ho' hne hlive hlive'
  · obtain ⟨group, -, hin⟩ := (hformed.sameGroup_iff_connected ho ho' hne).mpr hconnected
    exact absurd hin (hun group)
  · have hroom' := trace.size_le_replay o' ho'
    by_cases hhomes : g'.home = g.home
    · right
      by_contra hmeet
      exact hnot ⟨hhomes.symm, by omega, by omega⟩
    · exact .inl hhomes

/-- **A packet keeps the invariant.** -/
theorem patched_inv (hinv : Inv config trace st) (ho : o ∈ trace.captured)
    (hinside : offset + size ≤ trace.size o)
    (hl : st.suballocator.lookups.find (.object o.objectType o.index) = some l)
    (hhome : l.home = some home) (hmapped : isMapped config st.suballocator home = true) :
    Inv config trace (patched st o l home changed offset size) := by
  obtain ⟨g, hlive, hg, hoffset, hsize⟩ := live_of_find hinv.heaps hinv.sources ho hl hhome
  have hroom : offset + size ≤ l.size := by
    have := trace.size_le_replay o ho
    omega
  have hself : Holds trace (patched st o l home changed offset size) o home
      l.offset := patched_holds_self (prepared_holds hinv ho hl hhome hmapped)
  have hfind : ∀ key, (markInitialized st.suballocator o.objectType o.index l).lookups.find key =
      if key = .object o.objectType o.index then some { l with initialized := true }
      else st.suballocator.lookups.find key := find_markInitialized hl
  have hother : ∀ {o' : TrackedObject}, o' ∈ trace.captured → o ≠ o' →
      Key.object o'.objectType o'.index ≠ .object o.objectType o.index := by
    intro o' ho' hne heq
    simp only [Key.object.injEq] at heq
    exact hne (key_injective ho ho' (Prod.ext heq.1.symm heq.2.symm))
  have huntouched : ∀ {o'}, o' ∈ trace.captured → o ≠ o' → Ungrouped trace o' →
      Untouched trace st o' →
        Untouched trace (patched st o l home changed offset size) o' :=
    fun ho' hne hun => patched_untouched ho ho' hinside (apart_of_ungrouped ho ho' hne hun)
  have hgroup : ∀ {group}, InGroup trace.aliases group o →
      trace.aliases.lookup o.key = some ⟨some group, l.offset⟩ ∧
        st.suballocator.groupHome group = some home ∧ l.initialized = true := by
    rw [← hoffset, ← hg]
    exact group_of_live hinv ho hlive hl
  refine
    { heaps := hinv.heaps.markInitialized hl
      sources := ⟨hinv.sources.aliases, hinv.sources.bound, hinv.sources.searches⟩
      backed := hinv.backed
      pending := ?pending
      apart := hinv.apart
      waiting := ?waiting
      member := ?member
      single := ?single
      reserved := ?reserved
      unreserved := ?unreserved }
  case pending =>
    intro o' ho' tid search hsearch hkey
    obtain ⟨hbacked, hnot, hbefore⟩ := hinv.pending o' ho' tid search hsearch hkey
    have hne : o ≠ o' := by
      rintro rfl
      exact hnot g hlive
    exact ⟨hbacked, hnot, huntouched ho' hne
      (ungrouped_of_search hinv.heaps hinv.sources ho' hsearch hkey) hbefore⟩
  case waiting =>
    intro o' ho' hbacked hun
    have hne : o ≠ o' := by
      rintro rfl
      exact hbacked (hinv.backed o ho g hlive)
    exact huntouched ho' hne hun (hinv.waiting o' ho' hbacked hun)
  case member =>
    intro o' ho' g' l' hlive' hmember' hl'
    rw [patched, hfind] at hl'
    split at hl'
    · cases hl'
      rfl
    · exact hinv.member o' ho' g' l' hlive' hmember' hl'
  case single =>
    intro o' ho' g' l' hlive' hsingle' hl'
    have hun : Ungrouped trace o' := (single_iff_ungrouped hinv.sources ho' hlive').mp hsingle'
    rw [patched, hfind] at hl'
    by_cases heq : o = o'
    · subst heq
      cases hlive.symm.trans hlive'
      rw [if_pos rfl] at hl'
      cases hl'
      rw [if_pos rfl, hg, hoffset]
      exact hself
    · rw [if_neg (hother ho' heq)] at hl'
      have hbefore := hinv.single o' ho' g' l' hlive' hsingle' hl'
      cases hinit : l'.initialized with
      | false =>
          rw [hinit, if_neg Bool.false_ne_true] at hbefore
          rw [if_neg Bool.false_ne_true]
          exact huntouched ho' heq hun hbefore
      | true =>
          rw [hinit, if_pos rfl] at hbefore
          rw [if_pos rfl]
          refine patched_holds_apart ho ho' hinside hroom (apart_of_ungrouped ho ho' heq hun) ?_
            hbefore
          rw [← hg, ← hoffset, hsize]
          exact storage_apart hinv ho ho' heq hlive hlive' hun
  case reserved =>
    intro o' ho' group offset' home' hlookup' hhome' hmapped'
    have hbefore := hinv.reserved o' ho' group offset' home' hlookup' hhome' hmapped'
    by_cases hhomes : home' = home
    · -- the object of the packet is in this memory, so it is in the group
      subst hhomes
      cases hmember : g.entry.aliasMember with
      | false => exact absurd hg (single_home_ne hinv.heaps hlive hmember hhome')
      | true =>
          obtain ⟨group', hlookup, hreserved⟩ :=
            member_lookup hinv.heaps hinv.sources hlive hmember
          rw [hg] at hreserved
          rw [hoffset] at hlookup
          cases hinv.heaps.apart _ _ _ hreserved hhome'
          obtain ⟨formed, hformed⟩ := trace.formed
          have hdistance := group_distance hformed ho ho' hlookup hlookup'
          have hmemory := group_backingIndex ho ho' ⟨_, hlookup⟩ ⟨_, hlookup'⟩
          have hinit := hinv.member o ho g l hlive hmember hl
          exact patched_holds_member hinit hinside hmemory hdistance
            (hinv.reserved o ho _ _ _ hlookup hhome' hmapped') hbefore
    · refine patched_holds_apart ho ho' hinside hroom ?_ (.inl hhomes) hbefore
      intro hoverlap
      have hne : o ≠ o' := by
        rintro rfl
        obtain ⟨-, hreserved, -⟩ := hgroup ⟨_, hlookup'⟩
        exact hhomes (Option.some.inj (hhome'.symm.trans hreserved))
      obtain ⟨group', hin, hin'⟩ := sameGroup_of_overlap ho ho' hne hoverlap
      obtain ⟨-, hreserved, -⟩ := hgroup hin
      cases inGroup_unique hin' ⟨_, hlookup'⟩
      exact hhomes (Option.some.inj (hhome'.symm.trans hreserved))
  case unreserved =>
    intro o' ho' group hin' hnone
    have hapart : ∀ {group'}, InGroup trace.aliases group' o → group' ≠ group := by
      rintro group' hin rfl
      obtain ⟨-, hreserved, -⟩ := hgroup hin
      cases hnone.symm.trans hreserved
    refine patched_untouched ho ho' hinside ?_ (hinv.unreserved o' ho' group hin' hnone)
    intro hoverlap
    by_cases heq : o = o'
    · exact hapart (heq ▸ hin') rfl
    · obtain ⟨group', hin, hin''⟩ := sameGroup_of_overlap ho ho' heq hoverlap
      exact hapart hin (inGroup_unique hin'' hin')

/-- **What an update does.** -/
theorem update_spec (hheaps : Suballocator.Inv config st.suballocator)
    (hsources : Sources trace.captured trace.aliases st.suballocator) (ho : o ∈ trace.captured)
    (hinside : offset + size ≤ trace.size o)
    (hupdate : update config st o changed offset size = some st') :
    (packetsOf st o changed offset size = [] ∧ st' = st) ∨
      (packetsOf st o changed offset size ≠ [] ∧ ∃ l home,
        st.suballocator.lookups.find (.object o.objectType o.index) = some l ∧
          l.home = some home ∧ isMapped config st.suballocator home = true ∧
            st' = patched st o l home changed offset size) := by
  obtain hnone | ⟨hpacket, l, home, hl, hhome, hmapped⟩ := update_eq_some ho hupdate
  · exact .inl hnone
  · obtain ⟨g, hlive, -, -, hsize⟩ := live_of_find hheaps hsources ho hl hhome
    have hsmall := live_small hheaps hsources ho hlive
    have hroom := trace.size_le_replay o ho
    have hpatched := update_of_packet ho hl hhome hmapped (by omega) (by omega) hpacket
    cases hpatched.symm.trans hupdate
    exact .inr ⟨hpacket, l, home, hl, hhome, hmapped, rfl⟩

/-! ### A check -/

/-- The state behind a check. -/
def checked (st : State) (o : TrackedObject) (l : Lookup) : State :=
  { st with suballocator := markInitialized st.suballocator .buffer o.index l }

/-- A check only reads the lookup of its buffer. -/
theorem assertBuffer_eq_some {checksum : Nat}
    (hassert : assertBuffer config trace st o offset size checksum = some st') :
    ∃ l home, st.suballocator.lookups.find (.object .buffer o.index) = some l ∧
      l.home = some home ∧ st' = checked st o l := by
  unfold assertBuffer at hassert
  split at hassert
  · cases hassert
  · case _ checksumNew suballocator hchecksum =>
    split at hassert
    · cases hassert
      unfold checksumBufferRange at hchecksum
      split at hchecksum
      · cases hchecksum
      · case _ loc after hfound =>
        obtain ⟨l, home, hl, hhome, hpair⟩ := findMemory_eq_some hfound
        cases hpair
        refine ⟨l, home, hl, hhome, ?_⟩
        simp only at hchecksum
        generalize (if size = HostMemory.wholeSize then
          (trace.size o + 2 ^ 64 - offset) % 2 ^ 64 else size) = length at hchecksum
        split at hchecksum
        · cases hchecksum
          rfl
        · split at hchecksum
          · cases hchecksum
            rfl
          · cases hchecksum
    · cases hassert

/-- **A check keeps the invariant** where the storage is zero, if it takes the flag. -/
theorem checked_inv (hinv : Inv config trace st) (ho : o ∈ trace.captured)
    (htype : o.objectType = .buffer)
    (hl : st.suballocator.lookups.find (.object .buffer o.index) = some l)
    (hhome : l.home = some home)
    (hsafe : l.initialized = false → ∀ x < trace.size o, st.bytes home (l.offset + x) = 0) :
    Inv config trace (checked st o l) := by
  have hfind : ∀ key, (markInitialized st.suballocator .buffer o.index l).lookups.find key =
      if key = .object .buffer o.index then some { l with initialized := true }
      else st.suballocator.lookups.find key := find_markInitialized hl
  rw [← htype] at hl hfind
  obtain ⟨g, hlive, hg, hoffset, -⟩ := live_of_find hinv.heaps hinv.sources ho hl hhome
  refine { hinv with
    heaps := hinv.heaps.markInitialized (htype ▸ hl)
    sources := ⟨hinv.sources.aliases, hinv.sources.bound, hinv.sources.searches⟩
    member := ?member
    single := ?single }
  case member =>
    intro o' ho' g' l' hlive' hmember' hl'
    rw [checked, ← htype, hfind] at hl'
    split at hl'
    · cases hl'
      rfl
    · exact hinv.member o' ho' g' l' hlive' hmember' hl'
  case single =>
    intro o' ho' g' l' hlive' hsingle' hl'
    rw [checked, ← htype, hfind] at hl'
    split at hl'
    · case _ hkey =>
      simp only [Key.object.injEq] at hkey
      cases key_injective ho' ho (Prod.ext hkey.1 hkey.2)
      cases hlive.symm.trans hlive'
      cases hl'
      rw [if_pos rfl]
      have hbefore := hinv.single o ho g l hlive hsingle' hl
      cases hinit : l.initialized with
      | true =>
          rw [hinit, if_pos rfl] at hbefore
          exact hbefore
      | false =>
          -- both sides are zero
          rw [hinit, if_neg Bool.false_ne_true] at hbefore
          intro x hx
          rw [hg, hoffset]
          exact (hsafe hinit x hx).trans (hbefore x hx).symm
    · exact hinv.single o' ho' g' l' hlive' hsingle' hl'

/-! ### A call of the suballocator -/

theorem place_eq_some {label : Suballocator.Label} (hplace : place config st label = some st') :
    Suballocator.step config st.suballocator label = some st'.suballocator ∧
      st'.clone = st.clone ∧
      ((∃ tid data, label = .addTrackedobject tid data ∧ data.key ∉ st.backed ∧
          st'.backed = data.key :: st.backed ∧
          st'.bytes = clearReserved config st.suballocator st'.suballocator data st.bytes) ∨
        ((∀ tid data, label ≠ .addTrackedobject tid data) ∧ st'.backed = st.backed ∧
          st'.bytes = st.bytes)) := by
  unfold place at hplace
  split at hplace
  · case _ tid data =>
    split at hplace
    · cases hplace
    · case _ hfresh =>
      obtain ⟨next, hnext, rfl⟩ := Option.map_eq_some_iff.mp hplace
      exact ⟨hnext, rfl, .inl ⟨tid, data, rfl, hfresh, rfl, rfl⟩⟩
  · case _ hother =>
    obtain ⟨next, hnext, rfl⟩ := Option.map_eq_some_iff.mp hplace
    exact ⟨hnext, rfl, .inr ⟨hother, rfl, rfl⟩⟩

/-- What is bound at capture stays in the list of what has been bound. -/
theorem backed_of_place {label : Suballocator.Label} (hplace : place config st label = some st')
    {key : ObjectType × Nat} (hkey : key ∈ st.backed) : key ∈ st'.backed := by
  obtain ⟨-, -, ⟨tid, data, -, -, hbacked, -⟩ | ⟨-, hbacked, -⟩⟩ := place_eq_some hplace
  · rw [hbacked]
    exact List.mem_cons_of_mem _ hkey
  · rw [hbacked]
    exact hkey

/-- The object of a call was not bound before. -/
theorem fresh_of_place {label : Suballocator.Label} (hplace : place config st label = some st')
    (hkey : label.key = some (.object o.objectType o.index)) :
    o.key ∉ st.backed ∧ o.key ∈ st'.backed := by
  obtain ⟨-, -, ⟨tid, data, rfl, hfresh, hbacked, -⟩ | ⟨hother, -⟩⟩ := place_eq_some hplace
  · have hsame : data.key = o.key := by
      simp only [Label.key, Suballocation.key, Option.some.injEq] at hkey
      split at hkey
      · cases hkey
      · simp only [Key.object.injEq] at hkey
        exact Prod.ext hkey.1 hkey.2
    rw [hbacked, ← hsame]
    exact ⟨hfresh, List.mem_cons_self⟩
  · cases label with
    | addTrackedobject tid data => exact absurd rfl (hother tid data)
    | _ => cases hkey

/-- The memory of a group stays where it is, or it has just been reserved and, if it is mapped,
cleared; no other bytes change. -/
theorem bytes_of_place {label : Suballocator.Label} (hinv : Inv config trace st)
    (hvalid : label.Valid) (hplaces : Places trace.captured label)
    (hplace : place config st label = some st') :
    (st'.suballocator.groupHome = st.suballocator.groupHome ∧ st'.bytes = st.bytes) ∨
      ∃ group home x, trace.aliases.groups[group]? = some x ∧
        st.suballocator.groupHome group = none ∧
        st'.suballocator.groupHome =
          Function.update st.suballocator.groupHome group (some home) ∧
        st'.bytes = if isMapped config st'.suballocator home then
          Function.update st.bytes home (copy (st.bytes home) zeroed 0 x.size) else st.bytes := by
  obtain ⟨hstep, -, hbytes⟩ := place_eq_some hplace
  have hheaps := Suballocator.step_inv hinv.heaps hvalid hstep
  have hsources := step_sources hinv.heaps hinv.sources hplaces hstep
  obtain ⟨-, -, hsame | ⟨group, home, tid, data, offset, rfl, hget, hfirst, hreserved⟩⟩ :=
    step_outcome hinv.heaps hstep
  · refine .inl ⟨hsame, ?_⟩
    obtain ⟨tid, data, -, -, -, hcleared⟩ | ⟨-, -, hkept⟩ := hbytes
    · rw [hcleared]
      unfold clearReserved
      rw [hsame]
      split
      · split
        · case _ hnone hsome _ =>
          rw [hnone] at hsome
          cases hsome
        · rfl
      · rfl
    · exact hkept
  · have hhome : st'.suballocator.groupHome group = some home := by
      rw [hreserved, Function.update_self]
    obtain ⟨-, h, x, -, -, hx, -⟩ := hheaps.homes group home hhome
    rw [hsources.aliases] at hx
    refine .inr ⟨group, home, x, hx, hfirst, hreserved, ?_⟩
    obtain ⟨tid', data', hlabel, -, -, hcleared⟩ | ⟨hother, -⟩ := hbytes
    · cases hlabel
      rw [hcleared]
      unfold clearReserved
      rw [hget]
      simp only [hfirst, hhome, hinv.sources.aliases, hx]
    · exact absurd rfl (hother tid data)

/-- Memory that is mapped was so before. -/
theorem isMapped_of_kept {before after : Suballocator.State} {h : Heap}
    (hkept : HeapsKept before after) (hheap : before.heap home = some h)
    (hmapped : isMapped config after home = true) : isMapped config before home = true := by
  obtain ⟨h', hheap', htype, hmem⟩ := hkept home h hheap
  unfold isMapped at hmapped ⊢
  rw [hheap', Option.any_some, Bool.and_eq_true, htype] at hmapped
  rw [hheap, Option.any_some, Bool.and_eq_true]
  exact ⟨hmem hmapped.1, hmapped.2⟩

/-- A search was there before, or its object is bound for the first time. -/
theorem search_of_place {label : Suballocator.Label} (hinv : Inv config trace st)
    (hplace : place config st label = some st') {tid : Nat} {search : Search}
    (hsearch : st'.suballocator.searches tid = some search)
    (hkey : search.request.sub.key = .object o.objectType o.index) :
    (∃ old, st.suballocator.searches tid = some old ∧
      old.request.sub.key = .object o.objectType o.index) ∨
    (o.key ∉ st.backed ∧ o.key ∈ st'.backed ∧ BindsNone st.suballocator st'.suballocator ∧
      st'.suballocator.searches =
        Function.update st.suballocator.searches tid (some search)) := by
  obtain ⟨hstep, -⟩ := place_eq_some hplace
  obtain ⟨houtcome, -⟩ := step_outcome hinv.heaps hstep
  obtain ⟨old, hold, hrequest⟩ | ⟨hlabel, hnone, hsearches⟩ := houtcome.search hsearch
  · exact .inl ⟨old, hold, by rw [hrequest, hkey]⟩
  · obtain ⟨hfresh, hbacked⟩ := fresh_of_place hplace (hlabel.trans (congrArg some hkey))
    exact .inr ⟨hfresh, hbacked, hnone, hsearches⟩

/-- Only memory of a group is cleared. -/
theorem bytes_of_single {label : Suballocator.Label} (hinv : Inv config trace st)
    (hvalid : label.Valid) (hplaces : Places trace.captured label)
    (hplace : place config st label = some st')
    (hlive : Live st'.suballocator o g)
    (hsingle : g.entry.aliasMember = false) : st'.bytes g.home = st.bytes g.home := by
  obtain ⟨hstep, -⟩ := place_eq_some hplace
  have hheaps := Suballocator.step_inv hinv.heaps hvalid hstep
  obtain ⟨-, hbytes⟩ | ⟨group, home, x, -, -, hreserved, hbytes⟩ :=
    bytes_of_place hinv hvalid hplaces hplace
  · rw [hbytes]
  · have hne := single_home_ne hheaps hlive hsingle
      ((congrFun hreserved group).trans (Function.update_self ..))
    rw [hbytes]
    split
    · exact Function.update_of_ne hne _ _
    · rfl

/-- The memory of a group is the one it had, with its bytes, or new and cleared if it is mapped. -/
theorem bytes_of_group {label : Suballocator.Label} (hinv : Inv config trace st)
    (hvalid : label.Valid) (hplaces : Places trace.captured label)
    (hplace : place config st label = some st') {group : Nat}
    (hhome : st'.suballocator.groupHome group = some home) :
    (st.suballocator.groupHome group = some home ∧ st'.bytes home = st.bytes home) ∨
      ∃ x, trace.aliases.groups[group]? = some x ∧ st.suballocator.groupHome group = none ∧
        (isMapped config st'.suballocator home = true →
          st'.bytes home = copy (st.bytes home) zeroed 0 x.size) := by
  obtain ⟨hstep, -⟩ := place_eq_some hplace
  have hheaps := Suballocator.step_inv hinv.heaps hvalid hstep
  obtain ⟨hsame, hbytes⟩ | ⟨group', home', x, hx, hfirst, hreserved, hbytes⟩ :=
    bytes_of_place hinv hvalid hplaces hplace
  · exact .inl ⟨hsame ▸ hhome, by rw [hbytes]⟩
  · by_cases hgroup : group = group'
    · subst hgroup
      rw [hreserved, Function.update_self] at hhome
      cases hhome
      refine .inr ⟨x, hx, hfirst, fun hmapped => ?_⟩
      rw [hbytes, if_pos hmapped, Function.update_self]
    · have hnew := (congrFun hreserved group').trans (Function.update_self ..)
      have hne : home ≠ home' := by
        rintro rfl
        exact hgroup (hheaps.apart _ _ _ hhome hnew)
      rw [hreserved, Function.update_of_ne hgroup] at hhome
      refine .inl ⟨hhome, ?_⟩
      rw [hbytes]
      split
      · exact Function.update_of_ne hne _ _
      · rfl

/-- **A call keeps the invariant.** -/
theorem place_inv {label : Suballocator.Label} (hinv : Inv config trace st)
    (hvalid : label.Valid) (hplaces : Places trace.captured label)
    (hplace : place config st label = some st') : Inv config trace st' := by
  obtain ⟨hstep, hclone, -⟩ := place_eq_some hplace
  have hheaps := Suballocator.step_inv hinv.heaps hvalid hstep
  have hsources := step_sources hinv.heaps hinv.sources hplaces hstep
  obtain ⟨houtcome, hkept, -⟩ := step_outcome hinv.heaps hstep
  have huntouched : ∀ {o}, Untouched trace st o → Untouched trace st' o := by
    intro o hbefore x hx
    rw [hclone]
    exact hbefore x hx
  have hholds : ∀ {o home offset}, st'.bytes home = st.bytes home → Holds trace st o home offset →
      Holds trace st' o home offset := by
    intro o home offset hbytes hbefore x hx
    rw [hbytes, hclone]
    exact hbefore x hx
  refine
    { heaps := hheaps
      sources := hsources
      backed := ?backed
      pending := ?pending
      apart := ?apart
      waiting := ?waiting
      member := ?member
      single := ?single
      reserved := ?reserved
      unreserved := ?unreserved }
  case backed =>
    intro o ho g hlive
    obtain ⟨hold, -⟩ | ⟨-, hkey | ⟨tid, search, hsearch, hkey, -⟩⟩ := houtcome.live hlive
    · exact backed_of_place hplace (hinv.backed o ho g hold)
    · exact (fresh_of_place hplace hkey).2
    · exact backed_of_place hplace (hinv.pending o ho tid search hsearch hkey).1
  case pending =>
    intro o ho tid search hsearch hkey
    obtain ⟨old, hold, holdKey⟩ | ⟨hfresh, hbacked, hnone, -⟩ :=
      search_of_place hinv hplace hsearch hkey
    · obtain ⟨hbacked, hnot, hbefore⟩ := hinv.pending o ho tid old hold holdKey
      refine ⟨backed_of_place hplace hbacked, fun g hlive => ?_, huntouched hbefore⟩
      obtain ⟨hlive, -⟩ | ⟨-, hlabel | ⟨tid', search', hsearch', hkey', hended⟩⟩ :=
        houtcome.live hlive
      · exact hnot g hlive
      · exact (fresh_of_place hplace hlabel).1 hbacked
      · cases hinv.apart o ho tid tid' old search' hold hsearch' holdKey hkey'
        rw [hended] at hsearch
        cases hsearch
    · refine ⟨hbacked, fun g hlive => ?_, ?_⟩
      · exact hfresh (hinv.backed o ho g (hnone _ _ _ hlive).1)
      · exact huntouched (hinv.waiting o ho hfresh
          (ungrouped_of_search hheaps hsources ho hsearch hkey))
  case apart =>
    intro o ho tid tid' search search' hsearch hsearch' hkey hkey'
    by_contra hne
    -- a new search leaves the other one as it was
    have hnew : ∀ {tid tid' search search'}, tid ≠ tid' →
        st'.suballocator.searches tid' = some search' →
        search'.request.sub.key = .object o.objectType o.index → o.key ∉ st.backed →
        st'.suballocator.searches ≠
          Function.update st.suballocator.searches tid (some search) := by
      intro tid tid' search search' hne hsearch' hkey' hfresh hsearches
      rw [hsearches, Function.update_of_ne hne.symm] at hsearch'
      exact hfresh (hinv.pending o ho tid' search' hsearch' hkey').1
    obtain ⟨old, hold, holdKey⟩ | ⟨hfresh, -, -, hsearches⟩ :=
      search_of_place hinv hplace hsearch hkey
    · obtain ⟨old', hold', holdKey'⟩ | ⟨hfresh, -, -, hsearches⟩ :=
        search_of_place hinv hplace hsearch' hkey'
      · exact hne (hinv.apart o ho tid tid' old old' hold hold' holdKey holdKey')
      · exact hnew (Ne.symm hne) hsearch hkey hfresh hsearches
    · exact hnew hne hsearch' hkey' hfresh hsearches
  case waiting =>
    intro o ho hbacked hun
    exact huntouched (hinv.waiting o ho (fun hkey => hbacked (backed_of_place hplace hkey)) hun)
  case member =>
    intro o ho g l hlive hmember hl
    obtain ⟨hold, hsame⟩ | ⟨hbound, -⟩ := houtcome.live hlive
    · exact hinv.member o ho g l hold hmember (hsame ▸ hl)
    · rw [hbound] at hl
      cases hl
      exact hmember
  case single =>
    intro o ho g l hlive hsingle hl
    obtain ⟨hold, hsame⟩ | ⟨hbound, horigin⟩ := houtcome.live hlive
    · have hbefore := hinv.single o ho g l hold hsingle (hsame ▸ hl)
      split
      · case _ hinit =>
        rw [if_pos hinit] at hbefore
        exact hholds (bytes_of_single hinv hvalid hplaces hplace hlive hsingle) hbefore
      · case _ hinit =>
        rw [if_neg hinit] at hbefore
        exact huntouched hbefore
    · have hun : Ungrouped trace o := (single_iff_ungrouped hsources ho hlive).mp hsingle
      rw [hbound] at hl
      cases hl
      rw [if_neg (by simp [hsingle])]
      obtain hkey | ⟨tid, search, hsearch, hkey, -⟩ := horigin
      · exact huntouched (hinv.waiting o ho (fresh_of_place hplace hkey).1 hun)
      · exact huntouched (hinv.pending o ho tid search hsearch hkey).2.2
  case reserved =>
    intro o ho group offset home hlookup hhome hmapped
    obtain ⟨hhome, hbytes⟩ | ⟨x, hx, hfirst, hcleared⟩ :=
      bytes_of_group hinv hvalid hplaces hplace hhome
    · obtain ⟨-, h, -, hheap, -⟩ := hinv.heaps.homes group home hhome
      exact hholds hbytes (hinv.reserved o ho group offset home hlookup hhome
        (isMapped_of_kept hkept hheap hmapped))
    · -- the memory is new, and the clone has no bytes of the group yet
      obtain ⟨x', hx', hfits⟩ := group_fits ho hlookup
      cases hx.symm.trans hx'
      have hroom := trace.size_le_replay o ho
      have hzero := hinv.unreserved o ho group ⟨offset, hlookup⟩ hfirst
      intro y hy
      rw [huntouched hzero y hy, hcleared hmapped]
      exact if_pos (by omega)
  case unreserved =>
    intro o ho group hin hnone
    refine huntouched (hinv.unreserved o ho group hin ?_)
    obtain ⟨hsame, -⟩ | ⟨group', home', x, -, hfirst, hreserved, -⟩ :=
      bytes_of_place hinv hvalid hplaces hplace
    · exact hsame ▸ hnone
    · by_cases hgroup : group = group'
      · exact hgroup ▸ hfirst
      · rw [hreserved, Function.update_of_ne hgroup] at hnone
        exact hnone

/-! ### Runs -/

/-- **Every step keeps the invariant**, if a check that takes the flag finds zeroes. -/
theorem step_inv {label : Label} (hinv : Inv config trace st) (hvalid : label.Valid trace)
    (hsafe : CheckSafe trace st label) (hstep : step config trace st label = some st') :
    Inv config trace st' := by
  cases label with
  | place label => exact place_inv hinv hvalid.1 hvalid.2 hstep
  | update o changed offset size =>
      obtain ⟨ho, hinside⟩ := hvalid
      obtain ⟨-, rfl⟩ | ⟨-, l, home, hl, hhome, hmapped, rfl⟩ :=
        update_spec hinv.heaps hinv.sources ho hinside hstep
      · exact hinv
      · exact patched_inv hinv ho hinside hl hhome hmapped
  | assertBuffer o offset size checksum =>
      obtain ⟨ho, htype⟩ := hvalid
      obtain ⟨l, home, hl, hhome, rfl⟩ := assertBuffer_eq_some hstep
      exact checked_inv hinv ho htype hl hhome (hsafe l home hl hhome)

theorem run_inv {threads sessions : Nat} {bytes : HeapRef → Memory} {labels : List Label}
    (hvalid : ∀ label ∈ labels, label.Valid trace)
    (hsafe : Along (step config trace) (CheckSafe trace) (start trace threads sessions bytes)
      labels)
    (hrun : exec (step config trace) (start trace threads sessions bytes) labels = some st) :
    Inv config trace st := by
  have hlabels : Along (step config trace) (fun _ label => label.Valid trace)
      (start trace threads sessions bytes) labels := along_of_forall hvalid
  have hboth := hlabels.and hsafe
  exact exec_invariant (fun _ _ _ hinv hcond hstep => step_inv hinv hcond.1 hcond.2 hstep)
    (start_inv config trace threads sessions bytes) hboth hrun

/-- The storage of the object holds the clone behind its packet. -/
theorem Inv.mirrors (hinv : Inv config trace st) (ho : o ∈ trace.captured)
    (hinside : offset + size ≤ trace.size o) (hpacket : packetsOf st o changed offset size ≠ [])
    (hupdate : update config st o changed offset size = some st') : Mirrors trace st' o := by
  obtain ⟨hnone, -⟩ | ⟨-, l, home, hl, hhome, hmapped, rfl⟩ :=
    update_spec hinv.heaps hinv.sources ho hinside hupdate
  · exact absurd hnone hpacket
  · exact ⟨{ l with initialized := true }, home, (find_markInitialized hl _).trans (if_pos rfl),
      hhome, patched_holds_self (prepared_holds hinv ho hl hhome hmapped)⟩

/-- A live object in mapped memory takes every packet. -/
theorem Inv.update_isSome (hinv : Inv config trace st) (ho : o ∈ trace.captured)
    (hinside : offset + size ≤ trace.size o) (hpacket : packetsOf st o changed offset size ≠ [])
    {g : Grant} (hlive : Live st.suballocator o g)
    (hmapped : isMapped config st.suballocator g.home = true) :
    ∃ st', update config st o changed offset size = some st' := by
  obtain ⟨l, hl, hhome, -, hsize, -⟩ := hinv.heaps.located _ g hlive
  have hreqs := (hinv.sources.live ho hlive).1
  have hsmall := live_small hinv.heaps hinv.sources ho hlive
  have hroom := trace.size_le_replay o ho
  exact ⟨_, update_of_packet ho hl hhome hmapped (by omega) (by omega) hpacket⟩

/-- **A check on storage that is not zero** takes the flag, so that the storage is never
cleared: a byte of it stays wrong behind every packet that does not cover it. -/
theorem check_takes_init {checksum : Nat} (hinv : Inv config trace st) (ho : o ∈ trace.captured)
    (htype : o.objectType = .buffer)
    (hassert : assertBuffer config trace st o offset size checksum = some st')
    (hdirties : ¬ CheckSafe trace st (.assertBuffer o offset size checksum)) :
    ∃ x < trace.size o, ∀ changed first count st'', first + count ≤ trace.size o →
      ¬ (first ≤ x ∧ x < first + count) → packetsOf st' o changed first count ≠ [] →
        update config st' o changed first count = some st'' → ¬ Mirrors trace st'' o := by
  obtain ⟨l, home, hl, hhome, rfl⟩ := assertBuffer_eq_some hassert
  rw [← htype] at hl
  simp only [CheckSafe, not_forall] at hdirties
  obtain ⟨l', home', hl', hhome', hinit, x, hx, hdirty⟩ := hdirties
  rw [← htype, hl] at hl'
  cases hl'
  cases hhome.symm.trans hhome'
  obtain ⟨g, hlive, -, -, -⟩ := live_of_find hinv.heaps hinv.sources ho hl hhome
  -- the lookup of a member was initialized from the start
  have hsingle : g.entry.aliasMember = false := by
    by_contra hmember
    rw [hinv.member o ho g l hlive (Bool.not_eq_false _ ▸ hmember) hl] at hinit
    cases hinit
  have hclone := hinv.single o ho g l hlive hsingle hl
  rw [hinit, if_neg Bool.false_ne_true] at hclone
  have hfound : (checked st o l).suballocator.lookups.find (.object o.objectType o.index) =
      some { l with initialized := true } := by
    rw [checked, ← htype, find_markInitialized hl, if_pos rfl]
  refine ⟨x, hx, ?_⟩
  intro changed first count st'' hinside hout hpacket hupdate hmirrors
  have hheaps : Suballocator.Inv config (checked st o l).suballocator :=
    hinv.heaps.markInitialized (htype ▸ hl)
  have hsources : Sources trace.captured trace.aliases (checked st o l).suballocator :=
    ⟨hinv.sources.aliases, hinv.sources.bound, hinv.sources.searches⟩
  obtain ⟨hnone, -⟩ | ⟨-, l₂, home₂, hl₂, hhome₂, -, rfl⟩ :=
    update_spec hheaps hsources ho hinside hupdate
  · exact hpacket hnone
  · cases hfound.symm.trans hl₂
    cases hhome.symm.trans hhome₂
    obtain ⟨l₃, home₃, hl₃, hhome₃, hall⟩ := hmirrors
    rw [patched, find_markInitialized hfound, if_pos rfl] at hl₃
    cases hl₃
    cases hhome.symm.trans hhome₃
    have hbyte := hall x hx
    rw [patched_clone_kept (.inr (by omega))] at hbyte
    have hkept : (patched (checked st o l) o { l with initialized := true } home changed first
        count).bytes home (l.offset + x) = st.bytes home (l.offset + x) := by
      rw [patched_bytes_kept (by simp only; omega), prepared_of_initialized rfl]
      rfl
    exact hdirty (hkept.symm.trans (hbyte.trans (hclone x hx)))

end Steps

/-- **Replay memory mirrors the capture clone.**  Take any trace whose alias groups can be
prepared, with sizes at replay that are not below the captured ones, any bytes in the memory
that the driver hands out, and any run of placements, frees, packets and checks in which no check
of a buffer is the first to read a lookup whose storage is not zero.  Right behind every packet of
a captured object that `write_out_object` makes next, the first bytes of its storage are the
bytes of its captured range in the clone; and a live object in mapped memory takes every
packet. -/
theorem memory_mirrors_clone {config : Config} {trace : Trace} {threads sessions : Nat}
    {bytes : HeapRef → Memory} {labels : List Label} (hvalid : ∀ label ∈ labels, label.Valid trace)
    (hsafe : Along (step config trace) (CheckSafe trace) (start trace threads sessions bytes)
      labels) {st : State}
    (hrun : exec (step config trace) (start trace threads sessions bytes) labels = some st) :
    ∀ o ∈ trace.captured, ∀ changed offset size, offset + size ≤ trace.size o →
      packetsOf st o changed offset size ≠ [] →
        (∀ st', step config trace st (.update o changed offset size) = some st' →
          Mirrors trace st' o) ∧
        (∀ g, Live st.suballocator o g → isMapped config st.suballocator g.home = true →
          ∃ st', step config trace st (.update o changed offset size) = some st') := by
  have hinv := run_inv hvalid hsafe hrun
  intro o ho changed offset size hinside hpacket
  refine ⟨fun st' hstep => ?_, fun g hlive hmapped => ?_⟩
  · exact hinv.mirrors ho hinside hpacket hstep
  · exact hinv.update_isSome ho hinside hpacket hlive hmapped

/-- A buffer of sixteen bytes. -/
def bufferAt (index : Nat) : TrackedObject where
  objectType := .buffer
  index := index
  backingIndex := 0
  offset := 16 * index
  reqSize := 16
  reqs := { size := 16, alignment := 8, memoryTypeBits := 1 }

/-- Two buffers, one behind the other in one captured memory. -/
def twoBuffers : TraceObjects where
  images := []
  buffers := [bufferAt 0, bufferAt 1]
  tensors := []
  image_type := type_of_none .image
  buffer_type := by simp [bufferAt]
  tensor_type := type_of_none .tensor
  image_nodup := nodup_of_none
  buffer_nodup := by simp [bufferAt]
  tensor_nodup := nodup_of_none

/-- The trace of the two buffers, which are in no group. -/
def adjacent : Trace where
  device := 0
  objects := twoBuffers
  size := fun _ => 16
  aliases := { bufferAliasLookup := [{}, {}] }
  prepared := rfl
  size_le_reqSize := by decide
  size_le_replay := by decide
  sized := by decide

/-- A memory with one byte that is not zero. -/
def withByte (position : Nat) (byte : UInt8) : Memory := store zeroed position [byte]

/-- The first buffer is placed and gets a byte. -/
def firstBuffer : List Label :=
  [.place (.addTrackedobject 0 (bufferAt 0)), .place (.advance 0),
   .update (bufferAt 0) (withByte 8 7) 0 16]

/-- It is freed, and the second one is placed in its storage. -/
def secondBuffer : List Label :=
  [.place (.freeBuffer 0), .place (.addTrackedobject 0 (bufferAt 1)), .place (.advance 0),
   .place (.advance 0)]

/-- The first bytes of the second buffer are checked, and they are zero. -/
def checkFront : Label := .assertBuffer (bufferAt 1) 0 8 (adler32 (List.replicate 8 0))

theorem buffers_valid :
    ∀ label ∈ firstBuffer ++ secondBuffer ++ [checkFront], label.Valid adjacent := by
  have hcaptured : bufferAt 0 ∈ adjacent.captured ∧ bufferAt 1 ∈ adjacent.captured := by decide
  have hplace : ∀ index, (Suballocator.Label.addTrackedobject 0 (bufferAt index)).Valid :=
    fun index => ⟨by simp [bufferAt], 3, rfl⟩
  simp only [firstBuffer, secondBuffer, checkFront, List.cons_append, List.nil_append,
    List.forall_mem_cons]
  exact ⟨⟨hplace 0, hcaptured.1⟩, ⟨trivial, trivial⟩, ⟨hcaptured.1, le_rfl⟩, ⟨trivial, trivial⟩,
    ⟨hplace 1, hcaptured.2⟩, ⟨trivial, trivial⟩, ⟨trivial, trivial⟩, ⟨hcaptured.2, rfl⟩, by simp⟩

/-- The state behind a run and the next packet of the second buffer. -/
def secondPacket (labels : List Label) : Option (State × State) :=
  (exec (step oneType adjacent) (start adjacent 1 0 fun _ => zeroed) labels).bind fun st =>
    if packetsOf st (bufferAt 1) (withByte 16 1) 0 16 = [] then none
    else (step oneType adjacent st (.update (bufferAt 1) (withByte 16 1) 0 16)).map (st, ·)

theorem secondPacket_eq_some {labels : List Label} {st st' : State}
    (h : secondPacket labels = some (st, st')) :
    exec (step oneType adjacent) (start adjacent 1 0 fun _ => zeroed) labels = some st ∧
      packetsOf st (bufferAt 1) (withByte 16 1) 0 16 ≠ [] ∧
      step oneType adjacent st (.update (bufferAt 1) (withByte 16 1) 0 16) = some st' := by
  obtain ⟨middle, hrun, hpacket⟩ := Option.bind_eq_some_iff.mp h
  split at hpacket
  · cases hpacket
  · case _ hne =>
    obtain ⟨after, hstep, hpair⟩ := Option.map_eq_some_iff.mp hpacket
    cases hpair
    exact ⟨hrun, hne, hstep⟩

/-- The second buffer is cleared in front of its first packet. -/
theorem memory_mirrors_clone_secondBuffer :
    ∃ st st', exec (step oneType adjacent) (start adjacent 1 0 fun _ => zeroed)
        (firstBuffer ++ secondBuffer) = some st ∧
      step oneType adjacent st (.update (bufferAt 1) (withByte 16 1) 0 16) = some st' ∧
      Mirrors adjacent st' (bufferAt 1) := by
  have hsome : (secondPacket (firstBuffer ++ secondBuffer)).isSome = true := by decide +kernel
  obtain ⟨⟨st, st'⟩, hpair⟩ := Option.isSome_iff_exists.mp hsome
  obtain ⟨hrun, hpacket, hstep⟩ := secondPacket_eq_some hpair
  have hvalid : ∀ label ∈ firstBuffer ++ secondBuffer, label.Valid adjacent :=
    fun label hlabel => buffers_valid label (List.mem_append_left _ hlabel)
  have hunchecked : ∀ label ∈ firstBuffer ++ secondBuffer, ∀ st, CheckSafe adjacent st label := by
    simp [firstBuffer, secondBuffer, CheckSafe]
  have hsafe : Along (step oneType adjacent) (CheckSafe adjacent)
      (start adjacent 1 0 fun _ => zeroed) (firstBuffer ++ secondBuffer) :=
    (along_of_forall hunchecked).mono fun st _ hlabel => hlabel st
  exact ⟨st, st', hrun, hstep, (memory_mirrors_clone hvalid hsafe hrun (bufferAt 1) (by decide)
    (withByte 16 1) 0 16 le_rfl hpacket).1 st' hstep⟩

/-- Behind the check the storage of the second buffer is not cleared: a byte of the first one
shows up in it, which the clone does not have. -/
theorem check_leaves_byte :
    ∃ st st', exec (step oneType adjacent) (start adjacent 1 0 fun _ => zeroed)
        (firstBuffer ++ secondBuffer ++ [checkFront]) = some st ∧
      (∀ label ∈ firstBuffer ++ secondBuffer ++ [checkFront], label.Valid adjacent) ∧
      packetsOf st (bufferAt 1) (withByte 16 1) 0 16 ≠ [] ∧
      step oneType adjacent st (.update (bufferAt 1) (withByte 16 1) 0 16) = some st' ∧
      ¬ Mirrors adjacent st' (bufferAt 1) := by
  have hbyte : (secondPacket (firstBuffer ++ secondBuffer ++ [checkFront])).map (fun pair =>
      (pair.2.suballocator.lookups.find (.object .buffer 1), pair.2.bytes (0, 0) 8,
        pair.2.clone 0 24)) = some (some ⟨some (0, 0), 0, 16, false, true⟩, 7, 0) := by
    decide +kernel
  obtain ⟨⟨st, st'⟩, hpair, hvalues⟩ := Option.map_eq_some_iff.mp hbyte
  obtain ⟨hrun, hpacket, hstep⟩ := secondPacket_eq_some hpair
  simp only [Prod.mk.injEq] at hvalues
  obtain ⟨hfind, hstorage, hclone⟩ := hvalues
  refine ⟨st, st', hrun, buffers_valid, hpacket, hstep, ?_⟩
  rintro ⟨l, home, hl, hhome, hall⟩
  cases hfind.symm.trans hl
  cases hhome
  have hsame := hall 8 (by decide)
  simp only [bufferAt, Nat.zero_add, Nat.reduceMul, Nat.reduceAdd, hstorage, hclone] at hsame
  exact absurd hsame (by decide)

end MemoryMirror
end Lavatube
