import Lavatube.Lib.Transition
import Lavatube.AliasGroups

/-!
# The suballocator

The placement of replayed objects in device memory, `suballocator.cpp`.  Every thread
has its own heaps; a heap holds a list of suballocations in the order of their
offsets.  `add_trackedobject` and `add_datagraphpipelinesession` place an object, the
`free_*` functions only queue the offset of the object in its heap, and the owner of
the heap drains the queue the next time it looks for space there.

A search for space visits the heaps of its thread one after the other.  Draining a heap
and trying to place the object in it are separate steps, so that the calls of other
threads come between them in every order.

* `State`, `step` — the suballocator and the calls of all threads.
* `History` — what has been bound and freed so far; no function reads it.
* `WellFormed` — the entries of a heap are ordered, disjoint, aligned and accounted for.
* `Inv`, `step_inv` — the invariant of all runs.
* `heap_invariant` — what holds in every state of every run.
-/

namespace Lavatube
namespace Suballocator

open Transition AliasGroups

/-! ### Data -/

/-- `VK_DATA_GRAPH_PIPELINE_SESSION_BIND_POINT_MAX_ENUM_ARM`. -/
def bindPointMax : Nat := 0x7FFFFFFF

/-- `struct suballocation` without the driver's handle. -/
structure Suballocation where
  type : ObjectType := .unknown
  size : Nat := 0
  offset : Nat := 0
  alignment : Nat := 0
  index : Nat := 0
  bindPoint : Nat := bindPointMax
  objectIndex : Nat := uint32Max
  aliasMember : Bool := false
  deriving DecidableEq, Repr

/-- What owns memory: an image, buffer or tensor, or one binding of a session. -/
inductive Key where
  | object (type : ObjectType) (index : Nat)
  | binding (session bindPoint objectIndex : Nat)
  deriving DecidableEq, Repr

/-- The object a suballocation is for. -/
def Suballocation.key (s : Suballocation) : Key :=
  if s.type = .dataGraphPipelineSession then .binding s.index s.bindPoint s.objectIndex
  else .object s.type s.index

/-- The first byte behind the suballocation. -/
def Suballocation.stop (s : Suballocation) : Nat := s.offset + s.size

/-- `struct heap`; `mem` says that the memory handle is not null. -/
structure Heap where
  tid : Nat
  memoryTypeIndex : Nat
  mem : Bool := true
  free : Nat
  total : Nat
  flags : BitVec 32
  allocflags : BitVec 32
  dedicated : Bool := false
  aliasGroup : Bool := false
  subs : List Suballocation
  deletes : List Nat := []
  tiling : Tiling := .linear
  deriving DecidableEq, Repr

/-- A heap is named by its thread and its place among the heaps of the thread. -/
abbrev HeapRef := Nat × Nat

/-- `struct lookup`. -/
structure Lookup where
  home : Option HeapRef := none
  offset : Nat := 0
  size : Nat := 0
  aliasMember : Bool := false
  initialized : Bool := false
  deriving DecidableEq, Repr

/-- `struct datagraph_lookup`. -/
structure DatagraphLookup where
  bindPoint : Nat
  objectIndex : Nat
  loc : Lookup
  deriving DecidableEq, Repr

/-- The lookup tables of `suballocator_private`. -/
structure Lookups where
  image : List Lookup := []
  buffer : List Lookup := []
  tensor : List Lookup := []
  datagraphpipelinesession : List (List DatagraphLookup) := []
  deriving DecidableEq, Repr

/-- What a caller asks for: the arguments of `allocate` and `suballocate`. -/
structure Request where
  tid : Nat
  memoryTypeIndex : Nat
  sub : Suballocation
  flags : BitVec 32
  tiling : Tiling
  allocflags : BitVec 32
  deriving DecidableEq, Repr

/-- A running call of `suballocate`: the next heap to visit, and whether its pending
deletes have been taken. -/
structure Search where
  request : Request
  next : Nat := 0
  drained : Bool := false
  deriving DecidableEq, Repr

/-- What an object was given. -/
structure Grant where
  request : Request
  home : HeapRef
  entry : Suballocation
  deriving DecidableEq, Repr

/-- What happened so far: the objects bound and not freed yet, and per heap the entries
of the objects whose delete is pending. -/
structure History where
  bound : Key → Option Grant := fun _ => none
  freed : HeapRef → List Suballocation := fun _ => []

/-- `struct suballocator_private`, the running searches of the threads and the history. -/
structure State where
  threads : Nat
  heaps : Nat → List Heap := fun _ => []
  lookups : Lookups
  aliases : Aliases
  /-- The `home` of every alias group. -/
  groupHome : Nat → Option HeapRef := fun _ => none
  searches : Nat → Option Search := fun _ => none
  history : History := {}

/-- What the device reports and what is configured: the property flags of the memory
types, the size of a shared heap and the padding rule. -/
structure Config where
  minHeapSize : Nat := 1024 * 1024 * 32
  memoryTypes : List (BitVec 32)
  allowMixedTiling : Bool := true

/-! ### Memory types -/

/-- `VK_MEMORY_PROPERTY_DEVICE_LOCAL_BIT`. -/
def deviceLocalBit : BitVec 32 := 0x1

/-- `VK_MEMORY_PROPERTY_HOST_COHERENT_BIT`. -/
def hostCoherentBit : BitVec 32 := 0x4

/-- `VK_MEMORY_PROPERTY_HOST_CACHED_BIT`. -/
def hostCachedBit : BitVec 32 := 0x8

/-- `VK_MEMORY_PROPERTY_LAZILY_ALLOCATED_BIT`. -/
def lazilyAllocatedBit : BitVec 32 := 0x10

/-- `VK_MEMORY_ALLOCATE_DEVICE_ADDRESS_BIT_KHR`. -/
def deviceAddressBit : BitVec 32 := 0x2

/-- `prune_memory_flags`. -/
def pruneMemoryFlags (flags : BitVec 32) : BitVec 32 :=
  if flags &&& hostCoherentBit ≠ 0 ∨ flags &&& hostCachedBit ≠ 0 then
    flags &&& ~~~deviceLocalBit
  else
    flags

/-- The first memory type of the filter that has all properties. -/
def findMemoryType (memoryTypes : List (BitVec 32)) (typeFilter properties : BitVec 32) :
    Option Nat :=
  (List.range memoryTypes.length).find? fun i =>
    typeFilter.getLsbD i && (memoryTypes.getD i 0 &&& properties) == properties

/-- `get_device_memory_type`; `none` is the abort. -/
def getDeviceMemoryType (memoryTypes : List (BitVec 32)) (typeFilter properties : BitVec 32) :
    Option Nat :=
  match findMemoryType memoryTypes typeFilter properties with
  | some i => some i
  | none =>
      findMemoryType memoryTypes typeFilter
        (properties &&& ~~~(hostCachedBit ||| lazilyAllocatedBit))

/-! ### Lookups -/

namespace Lookups

/-- The table of the images, buffers or tensors. -/
def table (l : Lookups) : ObjectType → Option (List Lookup)
  | .image => some l.image
  | .buffer => some l.buffer
  | .tensor => some l.tensor
  | _ => none

/-- The entry of an object. -/
def find (l : Lookups) : Key → Option Lookup
  | .object type index => (l.table type).bind fun table => table[index]?
  | .binding session bindPoint objectIndex =>
      (l.datagraphpipelinesession[session]?).bind fun entries =>
        (entries.find? fun e => e.bindPoint = bindPoint ∧ e.objectIndex = objectIndex).map
          DatagraphLookup.loc

/-- The assignment to an entry of one of the three tables. -/
def set (l : Lookups) (type : ObjectType) (index : Nat) (entry : Lookup) : Lookups :=
  match type with
  | .image => { l with image := l.image.set index entry }
  | .buffer => { l with buffer := l.buffer.set index entry }
  | .tensor => { l with tensor := l.tensor.set index entry }
  | _ => l

/-- The lookups after `bind`; `none` is an abort or a failed assertion. -/
def bind (l : Lookups) (home : HeapRef) (s : Suballocation) : Option Lookups :=
  match s.type with
  | .dataGraphPipelineSession =>
      match l.datagraphpipelinesession[s.index]? with
      | none => none
      | some entries =>
          if entries.any fun e => e.bindPoint = s.bindPoint ∧ e.objectIndex = s.objectIndex then
            none
          else
            some { l with
              datagraphpipelinesession := l.datagraphpipelinesession.set s.index
                (entries ++ [⟨s.bindPoint, s.objectIndex,
                  { home := some home, offset := s.offset, size := s.size }⟩]) }
  | type =>
      match l.table type with
      | none => none
      | some table =>
          if s.index ≥ table.length then none
          else
            some (l.set type s.index
              ⟨some home, s.offset, s.size, s.aliasMember, s.aliasMember⟩)

end Lookups

/-! ### Heaps -/

namespace State

/-- The heap of a reference. -/
def heap (st : State) (ref : HeapRef) : Option Heap := (st.heaps ref.1)[ref.2]?

/-- The assignment to a heap. -/
def setHeap (st : State) (ref : HeapRef) (h : Heap) : State :=
  { st with heaps := Function.update st.heaps ref.1 ((st.heaps ref.1).set ref.2 h) }

/-- `thread_heaps(tid).push_back`. -/
def pushHeap (st : State) (tid : Nat) (h : Heap) : State :=
  { st with heaps := Function.update st.heaps tid (st.heaps tid ++ [h]) }

/-- `bind`: the lookup of the object names its place. -/
def bind (st : State) (home : HeapRef) (total : Nat) (request : Request) (s : Suballocation) :
    Option State :=
  if s.alignment ≠ 0 ∧ s.stop ≤ total then
    (st.lookups.bind home s).map fun lookups =>
      { st with
        lookups := lookups
        history := { st.history with
          bound := Function.update st.history.bound s.key (some ⟨request, home, s⟩) } }
  else
    none

end State

/-- `std::align`: the first multiple of the alignment in the space, if the object fits
behind it. -/
def align (alignment size start space : Nat) : Option Nat :=
  let aligned := (start + alignment - 1) / alignment * alignment
  if aligned - start + size ≤ space then some aligned else none

/-- The third case of `suballocate`: the scan for a hole between two entries or space
behind the last one. -/
def scan (total : Nat) (s : Suballocation) :
    List Suballocation → Option (List Suballocation × Suballocation)
  | [] => none
  | [it] =>
      match align s.alignment s.size it.stop (total - it.stop) with
      | some start => some ([it, { s with offset := start }], { s with offset := start })
      | none => none
  | it :: next :: rest =>
      match align s.alignment s.size it.stop (next.offset - it.stop) with
      | some start =>
          some (it :: { s with offset := start } :: next :: rest, { s with offset := start })
      | none =>
          match scan total s (next :: rest) with
          | some (subs, placed) => some (it :: subs, placed)
          | none => none

/-- The three cases of `suballocate` for one heap. -/
def placeIn (h : Heap) (s : Suballocation) : Option (Heap × Suballocation) :=
  if h.subs.isEmpty ∨ h.subs.head?.any (fun front => front.offset ≥ s.size) then
    some ({ h with subs := { s with offset := 0 } :: h.subs, free := h.free - s.size },
      { s with offset := 0 })
  else
    match scan h.total s h.subs with
    | some (subs, placed) => some ({ h with subs := subs, free := h.free - s.size }, placed)
    | none => none

/-- The condition of `suballocate` on a heap. -/
def suits (config : Config) (h : Heap) (r : Request) : Bool :=
  h.mem ∧ h.dedicated = false ∧ h.aliasGroup = false ∧ h.tid = r.tid ∧
    (r.flags &&& h.flags) = r.flags ∧
    (r.allocflags &&& deviceAddressBit = 0 ∨ h.allocflags &&& deviceAddressBit ≠ 0) ∧
    h.free ≥ r.sub.size ∧ h.memoryTypeIndex = r.memoryTypeIndex ∧
    (h.tiling = r.tiling ∨ config.allowMixedTiling = true)

/-- The erasure loop over the entries of a heap, with the space it gives back. -/
def eraseDeleted (deletes : List Nat) : List Suballocation → List Suballocation × Nat
  | [] => ([], 0)
  | it :: rest =>
      let (kept, freed) := eraseDeleted deletes rest
      if it.offset ∈ deletes then (kept, freed + it.size) else (it :: kept, freed)

/-- The pending deletes of a heap are taken and applied; an empty dedicated heap is
retired. -/
def drain (h : Heap) : Heap :=
  if h.deletes.isEmpty then h
  else
    let (subs, freed) := eraseDeleted h.deletes h.subs
    if h.dedicated ∧ subs.isEmpty ∧ h.mem then
      { h with deletes := [], subs := [], mem := false, free := 0, total := 0 }
    else
      { h with deletes := [], subs := subs, free := h.free + freed }

/-- The size of the memory that `allocate` asks the driver for. -/
def allocationSize (config : Config) (dedicated aliasGroup : Bool) (size : Nat) : Nat :=
  if dedicated ∨ aliasGroup then size else max config.minHeapSize size

/-- The heap that `allocate` makes; allocations have to stay below a gigabyte. -/
def newHeap (config : Config) (r : Request) (dedicated aliasGroup : Bool) : Option Heap :=
  let size := allocationSize config dedicated aliasGroup r.sub.size
  if size < 1024 * 1024 * 1024 then
    some { tid := r.tid, memoryTypeIndex := r.memoryTypeIndex, free := size - r.sub.size
           total := size, flags := r.flags, allocflags := r.allocflags, dedicated := dedicated
           aliasGroup := aliasGroup, subs := [r.sub], tiling := r.tiling }
  else
    none

/-- `allocate` for a single object. -/
def allocate (config : Config) (st : State) (r : Request) (dedicated : Bool) : Option State :=
  if r.tid < st.threads then
    match newHeap config r dedicated false with
    | none => none
    | some h => (st.pushHeap r.tid h).bind (r.tid, (st.heaps r.tid).length) h.total r r.sub
  else
    none

/-! ### Calls -/

/-- A session binding as `add_datagraphpipelinesession` reads it. -/
structure SessionBinding where
  index : Nat
  bindPoint : Nat
  objectIndex : Nat
  reqs : MemoryRequirements
  memoryFlags : BitVec 32 := 0
  dedicatedAllocation : Bool := false
  deriving DecidableEq, Repr

/-- The calls, and the progress of a search for space. -/
inductive Label where
  | addTrackedobject (tid : Nat) (data : TrackedObject)
  | addDatagraphpipelinesession (tid : Nat) (data : SessionBinding)
  | advance (tid : Nat)
  | freeImage (index : Nat)
  | freeBuffer (index : Nat)
  | freeTensor (index : Nat)
  | freeDatagraphpipelinesession (index : Nat)
  deriving DecidableEq, Repr

/-- A placement outside the alias groups: a heap of its own, or the start of a search. -/
def place (config : Config) (st : State) (r : Request) (dedicated : Bool) : Option State :=
  if dedicated then allocate config st r true
  else if r.tid < st.threads ∧ r.sub.alignment ≠ 0 then
    some { st with searches := Function.update st.searches r.tid (some { request := r }) }
  else
    none

/-- The first member of an alias group reserves memory for the whole group. -/
def reserveGroup (config : Config) (st : State) (tid group : Nat) (g : AliasGroup) :
    Option State :=
  let flags := pruneMemoryFlags g.reqs.memoryFlags
  match getDeviceMemoryType config.memoryTypes g.reqs.memoryTypeBits flags with
  | none => none
  | some memoryTypeIndex =>
      if tid < st.threads then
        match newHeap config
          { tid := tid, memoryTypeIndex := memoryTypeIndex
            sub := { size := g.size, alignment := g.alignment, index := g.captureMemoryIndex }
            flags := flags, tiling := g.tiling, allocflags := g.reqs.allocateFlags }
          false true with
        | none => none
        | some h =>
            some { st.pushHeap tid h with
              groupHome := Function.update st.groupHome group
                (some (tid, (st.heaps tid).length)) }
      else
        none

/-- A member of an alias group is bound at its offset in the memory of the group. -/
def bindMember (st : State) (tid group offset : Nat) (data : TrackedObject) : Option State :=
  match st.groupHome group with
  | none => none
  | some home =>
      match st.heap home with
      | none => none
      | some h =>
          let member : Suballocation :=
            { type := data.objectType, size := data.reqs.size, offset := offset
              index := data.index, alignment := data.reqs.alignment, aliasMember := true }
          st.bind home h.total
            { tid := tid, memoryTypeIndex := h.memoryTypeIndex, sub := member, flags := h.flags
              tiling := h.tiling, allocflags := h.allocflags } member

/-- `add_trackedobject`. -/
def addTrackedobject (config : Config) (st : State) (tid : Nat) (data : TrackedObject) :
    Option State :=
  if st.searches tid = none ∧ data.reqs.alignment ≠ 0 then
    match st.aliases.getAliasLookup data.objectType data.index with
    | .error _ => none
    | .ok (some ⟨some group, offset⟩) =>
        match st.aliases.groups[group]? with
        | none => none
        | some g =>
            match st.groupHome group with
            | some _ => bindMember st tid group offset data
            | none =>
                (reserveGroup config st tid group g).bind fun st =>
                  bindMember st tid group offset data
    | .ok _ =>
        let memoryFlags := pruneMemoryFlags data.memoryFlags
        match getDeviceMemoryType config.memoryTypes data.reqs.memoryTypeBits memoryFlags with
        | none => none
        | some memoryTypeIndex =>
            place config st
              { tid := tid, memoryTypeIndex := memoryTypeIndex
                sub := { type := data.objectType, size := data.reqs.size, index := data.index
                         alignment := data.reqs.alignment }
                flags := memoryFlags, tiling := data.tiling
                allocflags := data.reqs.allocateFlags }
              data.dedicatedAllocation
  else
    none

/-- `add_datagraphpipelinesession`. -/
def addDatagraphpipelinesession (config : Config) (st : State) (tid : Nat)
    (data : SessionBinding) : Option State :=
  if st.searches tid = none ∧ data.reqs.alignment ≠ 0 then
    let memoryFlags := pruneMemoryFlags data.memoryFlags
    match getDeviceMemoryType config.memoryTypes data.reqs.memoryTypeBits memoryFlags with
    | none => none
    | some memoryTypeIndex =>
        place config st
          { tid := tid, memoryTypeIndex := memoryTypeIndex
            sub := { type := .dataGraphPipelineSession, size := data.reqs.size
                     index := data.index, alignment := data.reqs.alignment
                     bindPoint := data.bindPoint, objectIndex := data.objectIndex }
            flags := memoryFlags, tiling := .linear
            allocflags := data.reqs.allocateFlags }
          (data.dedicatedAllocation || data.reqs.requiresDedicatedAllocation)
  else
    none

/-- The next step of a search: the pending deletes of a heap are applied, then the object
is placed in it if it fits, and behind the last heap a new one is allocated. -/
def advance (config : Config) (st : State) (tid : Nat) : Option State :=
  match st.searches tid with
  | none => none
  | some search =>
      match (st.heaps tid)[search.next]? with
      | none =>
          allocate config { st with searches := Function.update st.searches tid none }
            search.request false
      | some h =>
          if search.drained then
            match if suits config h search.request then placeIn h search.request.sub else none with
            | some (h, placed) =>
                ({ st with searches := Function.update st.searches tid none }.setHeap
                  (tid, search.next) h).bind (tid, search.next) h.total search.request placed
            | none =>
                some { st with
                  searches := Function.update st.searches tid
                    (some { search with next := search.next + 1, drained := false }) }
          else
            some { st.setHeap (tid, search.next) (drain h) with
              searches := Function.update st.searches tid (some { search with drained := true })
              history := { st.history with
                freed := Function.update st.history.freed (tid, search.next) [] } }

/-- `queue_delete` of a freed object; the offset is stored in 32 bits.  Members of alias
groups only lose their lookup. -/
def release (st : State) (key : Key) (l : Lookup) : State :=
  match l.home with
  | none => st
  | some home =>
      let history : History :=
        { bound := Function.update st.history.bound key none
          freed := if l.aliasMember then st.history.freed
            else Function.update st.history.freed home
              (st.history.freed home ++ ((st.history.bound key).map Grant.entry).toList) }
      if l.aliasMember then { st with history := history }
      else
        match st.heap home with
        | none => { st with history := history }
        | some h =>
            { st.setHeap home { h with deletes := h.deletes ++ [l.offset % 2 ^ 32] } with
              history := history }

/-- `CONTAINER_NULL_VALUE`. -/
def containerNullValue : Nat := 2 ^ 32 - 2

/-- `free_image`, `free_buffer` and `free_tensor` on the table of the type. -/
def freeObject (st : State) (type : ObjectType) (index : Nat) : Option State :=
  if index = containerNullValue then some st
  else
    match st.lookups.find (.object type index) with
    | none => none
    | some l =>
        some { release st (.object type index) l with
          lookups := st.lookups.set type index { l with home := none } }

/-- `free_image`. -/
def freeImage (st : State) (index : Nat) : Option State := freeObject st .image index

/-- `free_buffer`. -/
def freeBuffer (st : State) (index : Nat) : Option State := freeObject st .buffer index

/-- `free_tensor`. -/
def freeTensor (st : State) (index : Nat) : Option State := freeObject st .tensor index

/-- The loop of `free_datagraphpipelinesession`: the entries leave the table one by one. -/
def freeEntries (session : Nat) : List DatagraphLookup → State → State
  | [], st => st
  | e :: rest, st =>
      let st := release st (.binding session e.bindPoint e.objectIndex) e.loc
      freeEntries session rest
        { st with lookups := { st.lookups with
            datagraphpipelinesession := st.lookups.datagraphpipelinesession.set session rest } }

/-- `free_datagraphpipelinesession`. -/
def freeDatagraphpipelinesession (st : State) (index : Nat) : Option State :=
  if index = containerNullValue then some st
  else
    match st.lookups.datagraphpipelinesession[index]? with
    | none => none
    | some entries => some (freeEntries index entries st)

/-- One call, or one step of a search. -/
def step (config : Config) (st : State) : Label → Option State
  | .addTrackedobject tid data => addTrackedobject config st tid data
  | .addDatagraphpipelinesession tid data => addDatagraphpipelinesession config st tid data
  | .advance tid => advance config st tid
  | .freeImage index => freeImage st index
  | .freeBuffer index => freeBuffer st index
  | .freeTensor index => freeTensor st index
  | .freeDatagraphpipelinesession index => freeDatagraphpipelinesession st index

/-- The suballocator as `create` leaves it. -/
def create (threads images buffers tensors sessions : Nat) (aliases : Aliases) : State where
  threads := threads
  lookups :=
    { image := List.replicate images {}
      buffer := List.replicate buffers {}
      tensor := List.replicate tensors {}
      datagraphpipelinesession := List.replicate sessions [] }
  aliases := aliases

/-! ### One heap -/

/-- The entries of a heap are in the order of their offsets, disjoint, inside the heap and
aligned, and the free space is what they leave. -/
structure WellFormed (h : Heap) : Prop where
  separated : h.subs.Pairwise fun s s' => s.stop ≤ s'.offset
  inside : ∀ s ∈ h.subs, s.stop ≤ h.total
  positive : ∀ s ∈ h.subs, 0 < s.size
  aligned : ∀ s ∈ h.subs, s.alignment ∣ s.offset
  accounted : h.free + (h.subs.map Suballocation.size).sum = h.total
  small : h.total < 1024 * 1024 * 1024

namespace WellFormed

variable {h : Heap} {s s' : Suballocation} {front back : List Suballocation}

/-- Two entries are the same or share no byte. -/
theorem eq_or_disjoint (hok : WellFormed h) (hs : s ∈ h.subs) (hs' : s' ∈ h.subs) :
    s = s' ∨ s.stop ≤ s'.offset ∨ s'.stop ≤ s.offset := by
  obtain ⟨i, hi, rfl⟩ := List.getElem_of_mem hs
  obtain ⟨j, hj, rfl⟩ := List.getElem_of_mem hs'
  rcases lt_trichotomy i j with hlt | rfl | hlt
  · exact .inr (.inl (List.pairwise_iff_getElem.mp hok.separated i j hi hj hlt))
  · exact .inl rfl
  · exact .inr (.inr (List.pairwise_iff_getElem.mp hok.separated j i hj hi hlt))

/-- An entry is known by its offset. -/
theorem eq_of_offset (hok : WellFormed h) (hs : s ∈ h.subs) (hs' : s' ∈ h.subs)
    (hoffset : s.offset = s'.offset) : s = s' := by
  have hpos := hok.positive s hs
  have hpos' := hok.positive s' hs'
  cases hok.eq_or_disjoint hs hs' with
  | inl heq => exact heq
  | inr hdisjoint =>
      unfold Suballocation.stop at hdisjoint
      omega

/-- An entry is inserted between its neighbours. -/
theorem insert (hok : WellFormed h) (hsubs : h.subs = front ++ back) (hpos : 0 < s.size)
    (halign : s.alignment ∣ s.offset) (hroom : s.size ≤ h.free) (hinside : s.stop ≤ h.total)
    (hfront : ∀ x ∈ front, x.stop ≤ s.offset) (hback : ∀ x ∈ back, s.stop ≤ x.offset) :
    WellFormed { h with subs := front ++ s :: back, free := h.free - s.size } := by
  have hmem : ∀ {P : Suballocation → Prop}, P s → (∀ x ∈ h.subs, P x) →
      ∀ x ∈ front ++ s :: back, P x := by
    intro P hs hall x hx
    rw [hsubs] at hall
    simp only [List.mem_append, List.mem_cons] at hx hall
    obtain hx | rfl | hx := hx
    · exact hall x (.inl hx)
    · exact hs
    · exact hall x (.inr hx)
  constructor
  case separated =>
    have hseparated := hok.separated
    rw [hsubs, List.pairwise_append] at hseparated
    obtain ⟨hleft, hright, hcross⟩ := hseparated
    change (front ++ s :: back).Pairwise _
    rw [List.pairwise_append, List.pairwise_cons]
    refine ⟨hleft, ⟨hback, hright⟩, fun x hx => ?_⟩
    exact List.forall_mem_cons.mpr ⟨hfront x hx, hcross x hx⟩
  case inside => exact hmem hinside hok.inside
  case positive => exact hmem hpos hok.positive
  case aligned => exact hmem halign hok.aligned
  case accounted =>
    have haccounted := hok.accounted
    simp only [hsubs, List.map_append, List.sum_append, List.map_cons, List.sum_cons]
      at haccounted ⊢
    omega
  case small => exact hok.small

end WellFormed

theorem align_spec {alignment size start space aligned : Nat} (hpos : 0 < alignment)
    (h : align alignment size start space = some aligned) :
    start ≤ aligned ∧ alignment ∣ aligned ∧ aligned + size ≤ start + space := by
  unfold align at h
  simp only at h
  split at h
  · case _ hfits =>
    cases h
    have hle : start ≤ (start + alignment - 1) / alignment * alignment := by
      have hmod := Nat.mod_lt (start + alignment - 1) hpos
      have hdiv := Nat.div_add_mod' (start + alignment - 1) alignment
      omega
    exact ⟨hle, Nat.dvd_mul_left _ _, by omega⟩
  · cases h

/-- **The scan** puts the object between two neighbours or behind the last entry. -/
theorem scan_spec {total : Nat} {s placed : Suballocation} {subs subs' : List Suballocation}
    (halign : 0 < s.alignment) (hsorted : subs.Pairwise fun x y => x.stop ≤ y.offset)
    (hinside : ∀ x ∈ subs, x.stop ≤ total) (h : scan total s subs = some (subs', placed)) :
    ∃ front back, front ≠ [] ∧ subs = front ++ back ∧ subs' = front ++ placed :: back ∧
      placed = { s with offset := placed.offset } ∧ s.alignment ∣ placed.offset ∧
      placed.stop ≤ total ∧ (∀ x ∈ front, x.stop ≤ placed.offset) ∧
      (∀ x ∈ back, placed.stop ≤ x.offset) := by
  induction subs generalizing subs' with
  | nil => cases h
  | cons it rest ih =>
      cases rest with
      | nil =>
          unfold scan at h
          split at h
          · case _ start hstart =>
            cases h
            obtain ⟨hle, hdvd, hfits⟩ := align_spec halign hstart
            have hit := hinside it List.mem_cons_self
            refine ⟨[it], [], by simp, rfl, rfl, rfl, hdvd, ?_, by simpa using hle, by simp⟩
            change start + s.size ≤ total
            omega
          · cases h
      | cons next rest =>
          unfold scan at h
          rw [List.pairwise_cons] at hsorted
          split at h
          · case _ start hstart =>
            cases h
            obtain ⟨hle, hdvd, hfits⟩ := align_spec halign hstart
            have hnext := hsorted.1 next List.mem_cons_self
            have hbefore : start + s.size ≤ next.offset := by omega
            refine ⟨[it], next :: rest, by simp, rfl, rfl, rfl, hdvd, ?_, by simpa using hle, ?_⟩
            · have hend := hinside next (List.mem_cons_of_mem it List.mem_cons_self)
              change start + s.size ≤ total
              unfold Suballocation.stop at hend
              omega
            · refine List.forall_mem_cons.mpr ⟨hbefore, fun x hx => ?_⟩
              have hx' := (List.pairwise_cons.mp hsorted.2).1 x hx
              change start + s.size ≤ x.offset
              unfold Suballocation.stop at hx'
              omega
          · split at h
            · case _ subs₂ placed₂ hscan =>
              cases h
              obtain ⟨front, back, hne, hsubs, rfl, hplaced, hdvd, hend, hfront, hback⟩ :=
                ih hsorted.2 (fun x hx => hinside x (List.mem_cons_of_mem it hx)) hscan
              refine ⟨it :: front, back, by simp, by rw [hsubs, List.cons_append], rfl, hplaced,
                hdvd, hend, ?_, hback⟩
              refine List.forall_mem_cons.mpr ⟨?_, hfront⟩
              -- the next entry lies in front of the place found, and this one in front of it
              cases front with
              | nil => exact absurd rfl hne
              | cons f front =>
                  rw [List.cons_append, List.cons.injEq] at hsubs
                  obtain ⟨rfl, -⟩ := hsubs
                  have hnext := hsorted.1 next List.mem_cons_self
                  have hlast := hfront next List.mem_cons_self
                  unfold Suballocation.stop at hlast hnext ⊢
                  omega
            · cases h

/-- **Placing an object in a heap.**  The new entry is the object at an offset of its own,
and the other entries stay as they are. -/
theorem placeIn_spec {h h' : Heap} {s placed : Suballocation} (hok : WellFormed h)
    (halign : 0 < s.alignment) (hpos : 0 < s.size) (hroom : s.size ≤ h.free)
    (hplace : placeIn h s = some (h', placed)) :
    WellFormed h' ∧ h' = { h with subs := h'.subs, free := h'.free } ∧
      placed = { s with offset := placed.offset } ∧ placed.stop ≤ h.total ∧
      (∀ x, x ∈ h'.subs ↔ x = placed ∨ x ∈ h.subs) ∧ placed ∉ h.subs := by
  -- the place is between two parts of the list
  have hsplit : ∃ front back, h.subs = front ++ back ∧
      h' = { h with subs := front ++ placed :: back, free := h.free - s.size } ∧
      placed = { s with offset := placed.offset } ∧ s.alignment ∣ placed.offset ∧
      placed.stop ≤ h.total ∧ (∀ x ∈ front, x.stop ≤ placed.offset) ∧
      (∀ x ∈ back, placed.stop ≤ x.offset) := by
    unfold placeIn at hplace
    split at hplace
    · case _ hfirst =>
      cases hplace
      have htotal := hok.accounted
      refine ⟨[], h.subs, rfl, rfl, rfl, Nat.dvd_zero _, ?_, by simp, ?_⟩
      · change 0 + s.size ≤ h.total
        omega
      · intro x hx
        change 0 + s.size ≤ x.offset
        cases hsubs : h.subs with
        | nil =>
            rw [hsubs] at hx
            cases hx
        | cons first rest =>
            have hsorted := hok.separated
            rw [hsubs] at hfirst hx hsorted
            simp only [List.isEmpty_cons, Bool.false_eq_true, List.head?_cons, Option.any_some,
              decide_eq_true_eq, false_or] at hfirst
            cases List.mem_cons.mp hx with
            | inl heq =>
                rw [heq]
                omega
            | inr hx =>
                have hx' := (List.pairwise_cons.mp hsorted).1 x hx
                unfold Suballocation.stop at hx'
                omega
    · split at hplace
      · case _ subs placed' hscan =>
        cases hplace
        obtain ⟨front, back, -, hsubs, rfl, hplaced, hdvd, hend, hfront, hback⟩ :=
          scan_spec halign hok.separated hok.inside hscan
        exact ⟨front, back, hsubs, rfl, hplaced, hdvd, hend, hfront, hback⟩
      · cases hplace
  obtain ⟨front, back, hsubs, rfl, hplaced, hdvd, hend, hfront, hback⟩ := hsplit
  have hsize : placed.size = s.size := by rw [hplaced]
  have hsame : placed.alignment = s.alignment := by rw [hplaced]
  have hnew : placed ∉ h.subs := by
    intro hmem
    rw [hsubs] at hmem
    unfold Suballocation.stop at hfront hback
    cases List.mem_append.mp hmem with
    | inl hmem =>
        have := hfront placed hmem
        omega
    | inr hmem =>
        have := hback placed hmem
        omega
  refine ⟨?_, rfl, hplaced, hend, fun x => ?_, hnew⟩
  · rw [← hsize]
    exact hok.insert hsubs (hsize ▸ hpos) (hsame ▸ hdvd) (hsize ▸ hroom) hend hfront hback
  · rw [hsubs]
    simp only [List.mem_append, List.mem_cons]
    tauto

theorem eraseDeleted_subs (deletes : List Nat) (subs : List Suballocation) :
    (eraseDeleted deletes subs).1 = subs.filter fun it => it.offset ∉ deletes := by
  induction subs with
  | nil => rfl
  | cons it rest ih =>
      unfold eraseDeleted
      by_cases hmem : it.offset ∈ deletes <;> simp [hmem, ih]

theorem eraseDeleted_sizes (deletes : List Nat) (subs : List Suballocation) :
    ((eraseDeleted deletes subs).1.map Suballocation.size).sum + (eraseDeleted deletes subs).2 =
      (subs.map Suballocation.size).sum := by
  induction subs with
  | nil => rfl
  | cons it rest ih =>
      unfold eraseDeleted
      by_cases hmem : it.offset ∈ deletes
      · simp only [hmem, if_true, List.map_cons, List.sum_cons]
        omega
      · simp only [hmem, if_false, List.map_cons, List.sum_cons]
        omega

/-- **Draining a heap** removes the entries at the pending offsets and no others. -/
theorem drain_spec {h : Heap} (hok : WellFormed h) :
    WellFormed (drain h) ∧ (drain h).deletes = [] ∧
      (∀ s, s ∈ (drain h).subs ↔ s ∈ h.subs ∧ s.offset ∉ h.deletes) ∧
      ((drain h).subs ≠ [] → (drain h).mem = h.mem ∧ (drain h).total = h.total) ∧
      drain h = { h with deletes := [], subs := (drain h).subs, mem := (drain h).mem,
                         free := (drain h).free, total := (drain h).total } := by
  unfold drain
  split
  · case _ hempty =>
    have hnil : h.deletes = [] := List.isEmpty_iff.mp hempty
    refine ⟨hok, hnil, by simp [hnil], fun _ => ⟨rfl, rfl⟩, ?_⟩
    cases h
    simp_all
  · have hsubs := eraseDeleted_subs h.deletes h.subs
    have hsizes := eraseDeleted_sizes h.deletes h.subs
    simp only
    split
    · case _ hretire =>
      have hnil : (eraseDeleted h.deletes h.subs).1 = [] := List.isEmpty_iff.mp hretire.2.1
      refine ⟨⟨.nil, by simp, by simp, by simp, rfl, by simp⟩, rfl, fun s => ?_, by simp, rfl⟩
      rw [hsubs, List.filter_eq_nil_iff] at hnil
      simp only [List.not_mem_nil, false_iff, not_and]
      intro hs hmem
      exact hnil s hs (by simpa using hmem)
    · have hmem : ∀ s, s ∈ (eraseDeleted h.deletes h.subs).1 ↔
          s ∈ h.subs ∧ s.offset ∉ h.deletes := by
        intro s
        rw [hsubs, List.mem_filter, decide_eq_true_eq]
      refine ⟨?_, rfl, hmem, fun _ => ⟨rfl, rfl⟩, rfl⟩
      constructor
      case separated =>
        change (eraseDeleted h.deletes h.subs).1.Pairwise _
        rw [hsubs]
        exact hok.separated.filter _
      case inside => exact fun s hs => hok.inside s ((hmem s).mp hs).1
      case positive => exact fun s hs => hok.positive s ((hmem s).mp hs).1
      case aligned => exact fun s hs => hok.aligned s ((hmem s).mp hs).1
      case accounted =>
        have haccounted := hok.accounted
        simp only
        omega
      case small => exact hok.small

/-- A new heap holds the object at its start. -/
theorem newHeap_spec {config : Config} {r : Request} {dedicated aliasGroup : Bool} {h : Heap}
    (hpos : 0 < r.sub.size) (hoffset : r.sub.offset = 0)
    (hnew : newHeap config r dedicated aliasGroup = some h) :
    WellFormed h ∧ h.subs = [r.sub] ∧ h.deletes = [] ∧ h.mem = true ∧ h.tid = r.tid ∧
      h.memoryTypeIndex = r.memoryTypeIndex ∧ h.flags = r.flags ∧ h.allocflags = r.allocflags ∧
      h.tiling = r.tiling ∧ h.dedicated = dedicated ∧ h.aliasGroup = aliasGroup ∧
      h.total = allocationSize config dedicated aliasGroup r.sub.size := by
  unfold newHeap at hnew
  simp only at hnew
  split at hnew
  · case _ hsmall =>
    cases hnew
    have hle : r.sub.size ≤ allocationSize config dedicated aliasGroup r.sub.size := by
      unfold allocationSize
      split
      · exact le_rfl
      · exact le_max_right _ _
    refine ⟨?_, rfl, rfl, rfl, rfl, rfl, rfl, rfl, rfl, rfl, rfl, rfl⟩
    constructor
    case separated => exact List.pairwise_singleton _ _
    case inside =>
      simp only [List.mem_singleton, forall_eq]
      unfold Suballocation.stop
      omega
    case positive => simpa using hpos
    case aligned => simp [hoffset]
    case accounted =>
      simp only [List.map_cons, List.map_nil, List.sum_cons, List.sum_nil]
      omega
    case small => exact hsmall
  · cases hnew

/-! ### The lookups -/

namespace Lookups

variable {l l' : Lookups} {home : HeapRef} {s : Suballocation}

theorem table_set (type type' : ObjectType) (index : Nat) (entry : Lookup) :
    (l.set type index entry).table type' =
      (l.table type').map fun table => if type' = type then table.set index entry else table := by
  cases type <;> cases type' <;> rfl

theorem datagraph_set (type : ObjectType) (index : Nat) (entry : Lookup) :
    (l.set type index entry).datagraphpipelinesession = l.datagraphpipelinesession := by
  cases type <;> rfl

/-- An assignment changes the entry of its object only. -/
theorem find_set {type : ObjectType} {index : Nat} {old : Lookup} (entry : Lookup)
    (hold : l.find (.object type index) = some old) (key : Key) :
    (l.set type index entry).find key =
      if key = .object type index then some entry else l.find key := by
  cases key with
  | binding session bindPoint objectIndex =>
      rw [if_neg (by simp)]
      unfold find
      rw [datagraph_set]
  | object type' index' =>
      unfold find at hold ⊢
      simp only [table_set, Option.bind_map]
      by_cases htype : type' = type
      · subst htype
        obtain ⟨table, htable, hentry⟩ := Option.bind_eq_some_iff.mp hold
        have hlt := (List.getElem?_eq_some_iff.mp hentry).1
        simp only [htable, Option.bind_some, Function.comp_apply, if_true, Key.object.injEq,
          true_and]
        rw [List.getElem?_set]
        by_cases hindex : index = index'
        · rw [if_pos hindex, if_pos hlt, if_pos hindex.symm]
        · rw [if_neg hindex, if_neg (Ne.symm hindex)]
      · rw [if_neg (by simp [htype])]
        congr 1
        funext table
        simp [htype]

/-- **Binding** sets the lookup of the object to its place and changes no other. -/
theorem find_bind (h : l.bind home s = some l')
    (hmember : s.type = .dataGraphPipelineSession → s.aliasMember = false) (key : Key) :
    l'.find key = if key = s.key then
        some ⟨some home, s.offset, s.size, s.aliasMember, s.aliasMember⟩
      else l.find key := by
  unfold Lookups.bind at h
  split at h
  · case _ htype =>
    split at h
    · cases h
    · case _ entries hentries =>
      split at h
      · cases h
      · case _ hfresh =>
        cases h
        have hkey : s.key = .binding s.index s.bindPoint s.objectIndex := by
          unfold Suballocation.key
          rw [if_pos htype]
        have hlt := (List.getElem?_eq_some_iff.mp hentries).1
        -- a binding is new to its session
        have hnone : entries.find? (fun e => e.bindPoint = s.bindPoint ∧
            e.objectIndex = s.objectIndex) = none := by
          rw [List.find?_eq_none]
          simpa using hfresh
        rw [hkey, hmember htype]
        cases key with
        | object type index =>
            rw [if_neg (by simp)]
            cases type <;> rfl
        | binding session bindPoint objectIndex =>
            unfold find
            simp only [List.getElem?_set]
            by_cases hsession : s.index = session
            · subst hsession
              simp only [if_true, hlt, Option.bind_some, hentries, Key.binding.injEq, true_and,
                List.find?_append]
              by_cases hsame : bindPoint = s.bindPoint ∧ objectIndex = s.objectIndex
              · obtain ⟨rfl, rfl⟩ := hsame
                rw [hnone]
                simp
              · have hother : ¬ (s.bindPoint = bindPoint ∧ s.objectIndex = objectIndex) :=
                  fun heq => hsame ⟨heq.1.symm, heq.2.symm⟩
                simp [hsame, hother]
            · -- another session
              rw [if_neg hsession, if_neg (by simp [Ne.symm hsession])]
  · case _ htype =>
    split at h
    · cases h
    · case _ table htable =>
      split at h
      · cases h
      · case _ hlt =>
        cases h
        have hkey : s.key = .object s.type s.index := by
          unfold Suballocation.key
          rw [if_neg htype]
        rw [Nat.not_le] at hlt
        have hold : l.find (.object s.type s.index) = some (table.get ⟨s.index, hlt⟩) := by
          simp [find, htable, hlt]
        rw [hkey, find_set _ hold]

/-- No two bindings of a session have the same bind point and object index. -/
def Distinct (l : Lookups) : Prop :=
  ∀ entries ∈ l.datagraphpipelinesession, entries.Pairwise fun e e' =>
    ¬ (e'.bindPoint = e.bindPoint ∧ e'.objectIndex = e.objectIndex)

theorem Distinct.bind (hdistinct : l.Distinct) (h : l.bind home s = some l') : l'.Distinct := by
  unfold Lookups.bind at h
  split at h
  · split at h
    · cases h
    · case _ entries hentries =>
      split at h
      · cases h
      · case _ hfresh =>
        cases h
        intro entries' hmem
        cases List.mem_or_eq_of_mem_set hmem with
        | inl hmem => exact hdistinct entries' hmem
        | inr heq =>
            rw [heq, List.pairwise_append]
            refine ⟨hdistinct entries (List.mem_of_getElem? hentries),
              List.pairwise_singleton _ _, fun e he e' he' => ?_⟩
            rw [List.mem_singleton.mp he']
            rintro ⟨hpoint, hindex⟩
            apply hfresh
            rw [List.any_eq_true]
            exact ⟨e, he, decide_eq_true ⟨hpoint.symm, hindex.symm⟩⟩
  · split at h
    · cases h
    · split at h
      · cases h
      · cases h
        unfold Distinct
        rw [datagraph_set]
        exact hdistinct

/-- The first entry of a session leaves the table. -/
theorem find_pop {session : Nat} {e : DatagraphLookup} {rest : List DatagraphLookup}
    (hentries : l.datagraphpipelinesession[session]? = some (e :: rest))
    (hfresh : ∀ e' ∈ rest, ¬ (e'.bindPoint = e.bindPoint ∧ e'.objectIndex = e.objectIndex))
    (key : Key) :
    Lookups.find { l with
      datagraphpipelinesession := l.datagraphpipelinesession.set session rest } key =
        if key = .binding session e.bindPoint e.objectIndex then none else l.find key := by
  have hlt := (List.getElem?_eq_some_iff.mp hentries).1
  cases key with
  | object type index =>
      rw [if_neg (by simp)]
      cases type <;> rfl
  | binding session' bindPoint objectIndex =>
      unfold find
      simp only [List.getElem?_set]
      by_cases hsession : session = session'
      · subst hsession
        simp only [if_true, hlt, Option.bind_some, hentries, Key.binding.injEq, true_and]
        by_cases hsame : bindPoint = e.bindPoint ∧ objectIndex = e.objectIndex
        · obtain ⟨rfl, rfl⟩ := hsame
          simp only [and_self, if_true, Option.map_eq_none_iff, List.find?_eq_none]
          simpa using hfresh
        · have hother : ¬ (e.bindPoint = bindPoint ∧ e.objectIndex = objectIndex) :=
            fun heq => hsame ⟨heq.1.symm, heq.2.symm⟩
          rw [if_neg hsame, List.find?_cons_of_neg (by simpa using hother)]
      · rw [if_neg hsession, if_neg (by simp [Ne.symm hsession])]

end Lookups

/-! ### The heaps of the state -/

namespace State

variable {st st' : State} {ref ref' : HeapRef} {h h' : Heap} {tid : Nat}

theorem heap_setHeap (hold : st.heap ref = some h) (ref' : HeapRef) :
    (st.setHeap ref h').heap ref' = if ref' = ref then some h' else st.heap ref' := by
  obtain ⟨tid, i⟩ := ref
  obtain ⟨tid', i'⟩ := ref'
  have hlt := (List.getElem?_eq_some_iff.mp hold).1
  unfold State.heap State.setHeap
  simp only [Function.update_apply, Prod.mk.injEq]
  by_cases htid : tid' = tid
  · subst htid
    simp only [if_true, true_and, List.getElem?_set]
    by_cases hi : i = i'
    · rw [if_pos hi, if_pos hlt, if_pos hi.symm]
    · rw [if_neg hi, if_neg (Ne.symm hi)]
  · simp [htid]

theorem heap_pushHeap (ref' : HeapRef) :
    (st.pushHeap tid h).heap ref' =
      if ref' = (tid, (st.heaps tid).length) then some h else st.heap ref' := by
  obtain ⟨tid', i'⟩ := ref'
  unfold State.heap State.pushHeap
  simp only [Function.update_apply, Prod.mk.injEq]
  by_cases htid : tid' = tid
  · subst htid
    simp only [if_true, true_and]
    by_cases hi : i' = (st.heaps tid').length
    · rw [if_pos hi, hi, List.getElem?_concat_length]
    · rw [if_neg hi]
      rcases Nat.lt_or_gt_of_ne hi with hlt | hgt
      · rw [List.getElem?_append_left hlt]
      · rw [List.getElem?_eq_none (by simp; omega), List.getElem?_eq_none (by omega)]
  · simp [htid]

/-- A place behind the last heap of a thread holds no heap. -/
theorem heap_length : st.heap (tid, (st.heaps tid).length) = none := by
  simp [State.heap]

end State

/-! ### What a step can do -/

section

variable {config : Config} {st st' : State} {r : Request} {tid group offset : Nat}

/-- `allocate` binds the object of the request in a new heap. -/
theorem allocate_eq_some {dedicated : Bool}
    (hallocate : allocate config st r dedicated = some st') :
    ∃ h, newHeap config r dedicated false = some h ∧
      (st.pushHeap r.tid h).bind (r.tid, (st.heaps r.tid).length) h.total r r.sub = some st' := by
  unfold allocate at hallocate
  split at hallocate
  · split at hallocate
    · cases hallocate
    · case _ h hnew => exact ⟨h, hnew, hallocate⟩
  · cases hallocate

/-- `place` allocates, or it begins a search. -/
theorem place_cases {dedicated : Bool} (hplace : place config st r dedicated = some st') :
    (∃ dedicated, allocate config st r dedicated = some st') ∨
      st' = { st with searches := Function.update st.searches r.tid (some { request := r }) } := by
  unfold place at hplace
  split at hplace
  · exact .inl ⟨true, hplace⟩
  · split at hplace
    · cases hplace
      exact .inr rfl
    · cases hplace

/-- The memory of a group is reserved in a new heap. -/
theorem reserveGroup_eq_some {g : AliasGroup}
    (hreserve : reserveGroup config st tid group g = some st') :
    ∃ memoryTypeIndex h,
      newHeap config
        { tid := tid, memoryTypeIndex := memoryTypeIndex
          sub := { size := g.size, alignment := g.alignment, index := g.captureMemoryIndex }
          flags := pruneMemoryFlags g.reqs.memoryFlags, tiling := g.tiling
          allocflags := g.reqs.allocateFlags } false true = some h ∧
      st' = { st.pushHeap tid h with
        groupHome := Function.update st.groupHome group (some (tid, (st.heaps tid).length)) } := by
  unfold reserveGroup at hreserve
  simp only at hreserve
  split at hreserve
  · cases hreserve
  · case _ memoryTypeIndex _ =>
    split at hreserve
    · split at hreserve
      · cases hreserve
      · case _ h hnew =>
        cases hreserve
        exact ⟨memoryTypeIndex, h, hnew, rfl⟩
    · cases hreserve

/-- A member is bound in the memory of its group. -/
theorem bindMember_eq_some {data : TrackedObject}
    (hbind : bindMember st tid group offset data = some st') :
    ∃ home h, st.groupHome group = some home ∧ st.heap home = some h ∧
      st.bind home h.total
        { tid := tid, memoryTypeIndex := h.memoryTypeIndex
          sub := { type := data.objectType, size := data.reqs.size, offset := offset
                   index := data.index, alignment := data.reqs.alignment, aliasMember := true }
          flags := h.flags, tiling := h.tiling, allocflags := h.allocflags }
        { type := data.objectType, size := data.reqs.size, offset := offset
          index := data.index, alignment := data.reqs.alignment, aliasMember := true } =
        some st' := by
  unfold bindMember at hbind
  split at hbind
  · cases hbind
  · case _ home hhome =>
    split at hbind
    · cases hbind
    · case _ h hheap => exact ⟨home, h, hhome, hheap, hbind⟩

/-- What `add_trackedobject` does: the object is a member of an alias group, the first one
or a later one, or it is placed on its own. -/
inductive Added (config : Config) (st : State) (tid : Nat) (data : TrackedObject) : State → Prop
  | later {group offset : Nat} {next : State}
      (hget : st.aliases.getAliasLookup data.objectType data.index =
        .ok (some ⟨some group, offset⟩))
      (hbind : bindMember st tid group offset data = some next) : Added config st tid data next
  | first {group offset : Nat} {g : AliasGroup} {reserved next : State}
      (hget : st.aliases.getAliasLookup data.objectType data.index =
        .ok (some ⟨some group, offset⟩))
      (hg : st.aliases.groups[group]? = some g) (hfirst : st.groupHome group = none)
      (hreserve : reserveGroup config st tid group g = some reserved)
      (hbind : bindMember reserved tid group offset data = some next) :
      Added config st tid data next
  | single {entry : Option AliasLookup} {memoryTypeIndex : Nat} {next : State}
      (hget : st.aliases.getAliasLookup data.objectType data.index = .ok entry)
      (hnone : ∀ group offset, entry ≠ some ⟨some group, offset⟩)
      (halignment : data.reqs.alignment ≠ 0)
      (hplace : place config st
        { tid := tid, memoryTypeIndex := memoryTypeIndex
          sub := { type := data.objectType, size := data.reqs.size, index := data.index
                   alignment := data.reqs.alignment }
          flags := pruneMemoryFlags data.memoryFlags, tiling := data.tiling
          allocflags := data.reqs.allocateFlags } data.dedicatedAllocation = some next) :
      Added config st tid data next

theorem addTrackedobject_added {data : TrackedObject}
    (hadd : addTrackedobject config st tid data = some st') : Added config st tid data st' := by
  unfold addTrackedobject at hadd
  split at hadd
  · case _ hready =>
    split at hadd
    · cases hadd
    · case _ group offset hget =>
      split at hadd
      · cases hadd
      · case _ g hg =>
        split at hadd
        · exact .later hget hadd
        · case _ hfirst =>
          obtain ⟨reserved, hreserve, hbind⟩ := Option.bind_eq_some_iff.mp hadd
          exact .first hget hg hfirst hreserve hbind
    · case _ entry hnone hget =>
      simp only at hadd
      split at hadd
      · cases hadd
      · exact .single hget hnone hready.2 hadd
  · cases hadd

/-- A binding of a session is always placed on its own. -/
theorem addDatagraphpipelinesession_eq_some {data : SessionBinding}
    (hadd : addDatagraphpipelinesession config st tid data = some st') :
    data.reqs.alignment ≠ 0 ∧ ∃ memoryTypeIndex, place config st
      { tid := tid, memoryTypeIndex := memoryTypeIndex
        sub := { type := .dataGraphPipelineSession, size := data.reqs.size
                 index := data.index, alignment := data.reqs.alignment
                 bindPoint := data.bindPoint, objectIndex := data.objectIndex }
        flags := pruneMemoryFlags data.memoryFlags, tiling := .linear
        allocflags := data.reqs.allocateFlags }
      (data.dedicatedAllocation || data.reqs.requiresDedicatedAllocation) = some st' := by
  unfold addDatagraphpipelinesession at hadd
  split at hadd
  · case _ hready =>
    simp only at hadd
    split at hadd
    · cases hadd
    · exact ⟨hready.2, _, hadd⟩
  · cases hadd

/-- What the next step of a search does. -/
inductive Advanced (config : Config) (st : State) (tid : Nat) (search : Search) : State → Prop
  | allocated {next : State}
      (hallocate : allocate config { st with searches := Function.update st.searches tid none }
        search.request false = some next) : Advanced config st tid search next
  | placed {h h' : Heap} {placed : Suballocation} {next : State}
      (hheap : st.heap (tid, search.next) = some h) (hsuits : suits config h search.request = true)
      (hplace : placeIn h search.request.sub = some (h', placed))
      (hbind : ({ st with searches := Function.update st.searches tid none }.setHeap
        (tid, search.next) h').bind (tid, search.next) h'.total search.request placed =
          some next) : Advanced config st tid search next
  | passed : Advanced config st tid search
      { st with
        searches := Function.update st.searches tid
          (some { search with next := search.next + 1, drained := false }) }
  | drained {h : Heap} (hheap : st.heap (tid, search.next) = some h) :
      Advanced config st tid search
        { st.setHeap (tid, search.next) (drain h) with
          searches := Function.update st.searches tid (some { search with drained := true })
          history := { st.history with
            freed := Function.update st.history.freed (tid, search.next) [] } }

theorem advance_advanced (hadvance : advance config st tid = some st') :
    ∃ search, st.searches tid = some search ∧ Advanced config st tid search st' := by
  unfold advance at hadvance
  split at hadvance
  · cases hadvance
  · case _ search hsearch =>
    refine ⟨search, hsearch, ?_⟩
    split at hadvance
    · exact .allocated hadvance
    · case _ h hheap =>
      split at hadvance
      · split at hadvance
        · case _ h' placed hplace =>
          split at hplace
          · case _ hsuits => exact .placed hheap hsuits hplace hadvance
          · cases hplace
        · cases hadvance
          exact .passed
      · cases hadvance
        exact .drained hheap

/-- `free_image` and its siblings do nothing for the null value. -/
theorem freeObject_cases {type : ObjectType} {index : Nat}
    (hfree : freeObject st type index = some st') :
    st' = st ∨ ∃ l, st.lookups.find (.object type index) = some l ∧
      st' = { release st (.object type index) l with
        lookups := st.lookups.set type index { l with home := none } } := by
  unfold freeObject at hfree
  split at hfree
  · cases hfree
    exact .inl rfl
  · split at hfree
    · cases hfree
    · case _ l hfind =>
      cases hfree
      exact .inr ⟨l, hfind, rfl⟩

theorem freeDatagraphpipelinesession_cases {index : Nat}
    (hfree : freeDatagraphpipelinesession st index = some st') :
    st' = st ∨ ∃ entries, st.lookups.datagraphpipelinesession[index]? = some entries ∧
      st' = freeEntries index entries st := by
  unfold freeDatagraphpipelinesession at hfree
  split at hfree
  · cases hfree
    exact .inl rfl
  · split at hfree
    · cases hfree
    · case _ entries hentries =>
      cases hfree
      exact .inr ⟨entries, hentries, rfl⟩

end

/-! ### The invariant -/

/-- The heap has what was asked for. -/
structure Granted (config : Config) (h : Heap) (r : Request) : Prop where
  tid : h.tid = r.tid
  memoryTypeIndex : h.memoryTypeIndex = r.memoryTypeIndex
  flags : r.flags &&& h.flags = r.flags
  deviceAddress : r.allocflags &&& deviceAddressBit ≠ 0 →
    h.allocflags &&& deviceAddressBit ≠ 0
  tiling : h.tiling = r.tiling ∨ config.allowMixedTiling = true

/-- The place of an object outside the alias groups. -/
structure Placed (config : Config) (st : State) (key : Key) (g : Grant) : Prop where
  key_eq : g.entry.key = key
  not_freed : g.entry ∉ st.history.freed g.home
  heap : ∃ h, st.heap g.home = some h ∧ g.entry ∈ h.subs ∧ h.mem = true ∧
    h.aliasGroup = false ∧ Granted config h g.request

/-- The place of a member of an alias group. -/
def PlacedMember (st : State) (key : Key) (g : Grant) : Prop :=
  ∃ type index group, key = .object type index ∧
    st.aliases.lookup (type, index) = some ⟨some group, g.entry.offset⟩ ∧
    st.groupHome group = some g.home

/-- A request that may run. -/
structure ValidRequest (r : Request) : Prop where
  positive : 0 < r.sub.size
  aligned : 0 < r.sub.alignment
  offset : r.sub.offset = 0
  single : r.sub.aliasMember = false

/-- The lookup says where the object was placed. -/
def Locates (l : Lookup) (g : Grant) : Prop :=
  l.home = some g.home ∧ l.offset = g.entry.offset ∧ l.size = g.entry.size ∧
    l.aliasMember = g.entry.aliasMember

/-- The invariant of all runs. -/
structure Inv (config : Config) (st : State) : Prop where
  heaps : ∀ ref h, st.heap ref = some h → WellFormed h ∧ h.tid = ref.1
  deletes : ∀ ref h, st.heap ref = some h →
    h.deletes = (st.history.freed ref).map Suballocation.offset ∧
      ∀ s ∈ st.history.freed ref, s ∈ h.subs
  unborn : ∀ ref, st.heap ref = none → st.history.freed ref = []
  located : ∀ key g, st.history.bound key = some g →
    ∃ l, st.lookups.find key = some l ∧ Locates l g
  known : ∀ key l ref, st.lookups.find key = some l → l.home = some ref →
    ∃ g, st.history.bound key = some g
  placed : ∀ key g, st.history.bound key = some g → g.entry.aliasMember = false →
    Placed config st key g
  member : ∀ key g, st.history.bound key = some g → g.entry.aliasMember = true →
    PlacedMember st key g
  homes : ∀ group ref, st.groupHome group = some ref → st.history.freed ref = [] ∧
    ∃ h g, st.heap ref = some h ∧ h.aliasGroup = true ∧
      st.aliases.groups[group]? = some g ∧ h.total = g.size
  apart : ∀ group group' ref, st.groupHome group = some ref →
    st.groupHome group' = some ref → group = group'
  distinct : st.lookups.Distinct
  sized : ∀ g ∈ st.aliases.groups, 0 < g.size
  searches : ∀ tid search, st.searches tid = some search →
    search.request.tid = tid ∧ ValidRequest search.request

section Steps

variable {config : Config} {st st' : State} {ref home : HeapRef} {h h' : Heap}
  {r : Request} {s : Suballocation} {tid : Nat}

/-- The searches are not read by the rest of the invariant. -/
theorem Inv.setSearches (hinv : Inv config st) {searches : Nat → Option Search}
    (hsearches : ∀ tid search, searches tid = some search →
      search.request.tid = tid ∧ ValidRequest search.request) :
    Inv config { st with searches := searches } :=
  { hinv with
    searches := hsearches
    placed := fun key g hg hsingle =>
      ⟨(hinv.placed key g hg hsingle).key_eq, (hinv.placed key g hg hsingle).not_freed,
        (hinv.placed key g hg hsingle).heap⟩ }

/-- **A heap is replaced**, together with what was freed in it. -/
theorem Inv.replace (hinv : Inv config st) (hheap : st.heap ref = some h) (hok : WellFormed h')
    (hsame : h' = { h with deletes := h'.deletes, subs := h'.subs, mem := h'.mem,
                           free := h'.free, total := h'.total })
    {freed : List Suballocation} (hdeletes : h'.deletes = freed.map Suballocation.offset)
    (hfreed : ∀ s ∈ freed, s ∈ h'.subs)
    (hplaced : ∀ key g, st.history.bound key = some g → g.entry.aliasMember = false →
      g.home = ref → g.entry ∉ freed ∧ g.entry ∈ h'.subs ∧ h'.mem = true)
    (hgroup : h.aliasGroup = true → st.history.freed ref = [] →
      freed = [] ∧ h'.total = h.total) :
    Inv config { st.setHeap ref h' with
      history := { st.history with freed := Function.update st.history.freed ref freed } } := by
  have hself : (st.setHeap ref h').heap ref = some h' :=
    (State.heap_setHeap hheap ref).trans (if_pos rfl)
  have hother : ∀ {ref'}, ref' ≠ ref → (st.setHeap ref h').heap ref' = st.heap ref' :=
    fun hne => (State.heap_setHeap hheap _).trans (if_neg hne)
  refine { hinv with heaps := ?_, deletes := ?_, unborn := ?_, placed := ?_, homes := ?_ }
  · intro ref' x hx
    rcases eq_or_ne ref' ref with rfl | hne
    · cases hself.symm.trans hx
      refine ⟨hok, ?_⟩
      rw [hsame]
      exact (hinv.heaps ref' h hheap).2
    · exact hinv.heaps ref' x ((hother hne).symm.trans hx)
  · intro ref' x hx
    rcases eq_or_ne ref' ref with rfl | hne
    · cases hself.symm.trans hx
      simp only [Function.update_self]
      exact ⟨hdeletes, hfreed⟩
    · simp only [Function.update_of_ne hne]
      exact hinv.deletes ref' x ((hother hne).symm.trans hx)
  · intro ref' hnone
    rcases eq_or_ne ref' ref with rfl | hne
    · cases hself.symm.trans hnone
    · simp only [Function.update_of_ne hne]
      exact hinv.unborn ref' ((hother hne).symm.trans hnone)
  · intro key g hg hsingle
    obtain ⟨hkey, hkept, x, hx, hmem, hmemory, hsolo, hgranted⟩ := hinv.placed key g hg hsingle
    by_cases heq : g.home = ref
    · obtain ⟨hkept', hmem', hmemory'⟩ := hplaced key g hg hsingle heq
      rw [heq, hheap] at hx
      cases hx
      refine ⟨hkey, ?_, h', heq ▸ hself, hmem', hmemory', ?_, ?_⟩
      · simp only [heq, Function.update_self]
        exact hkept'
      · rw [hsame]
        exact hsolo
      · -- what was asked for is not among the members that change
        rw [hsame]
        exact ⟨hgranted.tid, hgranted.memoryTypeIndex, hgranted.flags, hgranted.deviceAddress,
          hgranted.tiling⟩
    · refine ⟨hkey, ?_, x, (hother heq).trans hx, hmem, hmemory, hsolo, hgranted⟩
      simp only [Function.update_of_ne heq]
      exact hkept
  · intro group ref' hhome
    obtain ⟨hkept, x, g, hx, halias, hg, htotal⟩ := hinv.homes group ref' hhome
    rcases eq_or_ne ref' ref with rfl | hne
    · cases hheap.symm.trans hx
      obtain ⟨hnone, htotal'⟩ := hgroup halias hkept
      refine ⟨?_, h', g, hself, ?_, hg, htotal'.trans htotal⟩
      · simp only [Function.update_self]
        exact hnone
      · rw [hsame]
        exact halias
    · refine ⟨?_, x, g, (hother hne).trans hx, halias, hg, htotal⟩
      simp only [Function.update_of_ne hne]
      exact hkept

/-- A heap gains entries. -/
theorem Inv.grow (hinv : Inv config st) (hheap : st.heap ref = some h) (hok : WellFormed h')
    (hsame : h' = { h with subs := h'.subs, free := h'.free })
    (hsubs : ∀ x ∈ h.subs, x ∈ h'.subs) : Inv config (st.setHeap ref h') := by
  obtain ⟨hdeletes, hfreed⟩ := hinv.deletes ref h hheap
  have hdeletes' : h'.deletes = (st.history.freed ref).map Suballocation.offset := by
    rw [hsame]
    exact hdeletes
  have hreplaced := hinv.replace hheap hok (by rw [hsame]) hdeletes'
    (fun s hs => hsubs s (hfreed s hs)) (fun key g hg hsingle heq => ?_)
    (fun _ hnone => ⟨hnone, by rw [hsame]⟩)
  · rw [Function.update_eq_self] at hreplaced
    exact hreplaced
  · obtain ⟨-, hkept, x, hx, hmem, hmemory, -⟩ := hinv.placed key g hg hsingle
    rw [heq] at hkept hx
    cases hheap.symm.trans hx
    refine ⟨hkept, hsubs _ hmem, ?_⟩
    rw [hsame]
    exact hmemory

/-- A thread gains a heap. -/
theorem Inv.push (hinv : Inv config st) (hok : WellFormed h) (htid : h.tid = tid)
    (hdeletes : h.deletes = []) : Inv config (st.pushHeap tid h) := by
  have hpush : ∀ ref', (st.pushHeap tid h).heap ref' =
      if ref' = (tid, (st.heaps tid).length) then some h else st.heap ref' :=
    State.heap_pushHeap
  have hnew : st.heap (tid, (st.heaps tid).length) = none := State.heap_length
  have hkeep : ∀ {ref' x}, st.heap ref' = some x → (st.pushHeap tid h).heap ref' = some x := by
    intro ref' x hx
    rw [hpush, if_neg]
    · exact hx
    · rintro rfl
      rw [hnew] at hx
      cases hx
  refine { hinv with heaps := ?_, deletes := ?_, unborn := ?_, placed := ?_, homes := ?_ }
  · intro ref' x hx
    rw [hpush] at hx
    split at hx
    · case _ heq =>
      cases hx
      exact ⟨hok, by rw [htid, heq]⟩
    · exact hinv.heaps ref' x hx
  · intro ref' x hx
    rw [hpush] at hx
    split at hx
    · case _ heq =>
      cases hx
      have hnone : st.history.freed ref' = [] := hinv.unborn ref' (heq ▸ hnew)
      change _ = (st.history.freed ref').map _ ∧ ∀ s ∈ st.history.freed ref', _
      rw [hnone, hdeletes]
      simp
    · exact hinv.deletes ref' x hx
  · intro ref' hnone
    rw [hpush] at hnone
    split at hnone
    · cases hnone
    · exact hinv.unborn ref' hnone
  · intro key g hg hsingle
    obtain ⟨hkey, hfreed, x, hx, hrest⟩ := hinv.placed key g hg hsingle
    exact ⟨hkey, hfreed, x, hkeep hx, hrest⟩
  · intro group ref' hhome
    obtain ⟨hkept, x, g, hx, hrest⟩ := hinv.homes group ref' hhome
    exact ⟨hkept, x, g, hkeep hx, hrest⟩

/-- What `bind` changes. -/
theorem bind_eq_some {total : Nat} (hbind : st.bind home total r s = some st') :
    ∃ lookups, st.lookups.bind home s = some lookups ∧
      st' = { st with
        lookups := lookups
        history := { st.history with
          bound := Function.update st.history.bound s.key (some ⟨r, home, s⟩) } } := by
  unfold State.bind at hbind
  split at hbind
  · obtain ⟨lookups, hlookups, rfl⟩ := Option.map_eq_some_iff.mp hbind
    exact ⟨lookups, hlookups, rfl⟩
  · cases hbind

/-- An object is bound to its entry, or to its offset in the memory of its group. -/
theorem Inv.bind {total : Nat} (hinv : Inv config st)
    (hbind : st.bind home total r s = some st')
    (htype : s.type = .dataGraphPipelineSession → s.aliasMember = false)
    (hplaced : s.aliasMember = false → Placed config st s.key ⟨r, home, s⟩)
    (hmember : s.aliasMember = true → PlacedMember st s.key ⟨r, home, s⟩) :
    Inv config st' := by
  obtain ⟨lookups, hlookups, rfl⟩ := bind_eq_some hbind
  have hfind := Lookups.find_bind hlookups htype
  -- the grants are the old ones and the new one
  have hbound : ∀ {key g}, Function.update st.history.bound s.key (some ⟨r, home, s⟩) key =
      some g → (key = s.key ∧ g = ⟨r, home, s⟩) ∨
        (key ≠ s.key ∧ st.history.bound key = some g) := by
    intro key g hg
    by_cases heq : key = s.key
    · subst heq
      rw [Function.update_self] at hg
      exact .inl ⟨rfl, (Option.some.inj hg).symm⟩
    · rw [Function.update_of_ne heq] at hg
      exact .inr ⟨heq, hg⟩
  refine { hinv with located := ?_, known := ?_, placed := ?_, member := ?_, distinct := ?_ }
  · intro key g hg
    obtain ⟨rfl, rfl⟩ | ⟨hne, hg⟩ := hbound hg
    · exact ⟨_, by rw [hfind, if_pos rfl], rfl, rfl, rfl, rfl⟩
    · obtain ⟨l, hl, hlocates⟩ := hinv.located key g hg
      exact ⟨l, by rw [hfind, if_neg hne]; exact hl, hlocates⟩
  · intro key l ref hl hhome
    change lookups.find key = some l at hl
    change ∃ g, Function.update st.history.bound s.key (some ⟨r, home, s⟩) key = some g
    rw [hfind] at hl
    split at hl
    · case _ heq => exact ⟨⟨r, home, s⟩, by rw [heq, Function.update_self]⟩
    · case _ hne =>
      rw [Function.update_of_ne hne]
      exact hinv.known key l ref hl hhome
  · intro key g hg hsingle
    obtain ⟨rfl, rfl⟩ | ⟨-, hg⟩ := hbound hg
    · obtain ⟨hkey, hfreed, hheap⟩ := hplaced hsingle
      exact ⟨hkey, hfreed, hheap⟩
    · obtain ⟨hkey, hfreed, hheap⟩ := hinv.placed key g hg hsingle
      exact ⟨hkey, hfreed, hheap⟩
  · intro key g hg halias
    obtain ⟨rfl, rfl⟩ | ⟨-, hg⟩ := hbound hg
    · exact hmember halias
    · exact hinv.member key g hg halias
  · exact hinv.distinct.bind hlookups

/-- **A new heap for one object.** -/
theorem Inv.allocate {dedicated : Bool} (hinv : Inv config st) (hvalid : ValidRequest r)
    (hallocate : allocate config st r dedicated = some st') : Inv config st' := by
  obtain ⟨h, hnew, hbind⟩ := allocate_eq_some hallocate
  obtain ⟨hok, hsubs, hdeletes, hmem, htid, htype, hflags, halloc, htiling, -, hgroup, -⟩ :=
    newHeap_spec hvalid.positive hvalid.offset hnew
  have hpushed := hinv.push hok htid hdeletes
  have hheap : (st.pushHeap r.tid h).heap (r.tid, (st.heaps r.tid).length) = some h := by
    rw [State.heap_pushHeap, if_pos rfl]
  apply hpushed.bind hbind (fun _ => hvalid.single)
  · intro _
    refine ⟨rfl, ?_, h, hheap, by simp [hsubs], hmem, hgroup, ?_⟩
    · change r.sub ∉ st.history.freed (r.tid, (st.heaps r.tid).length)
      rw [hinv.unborn _ State.heap_length]
      simp
    · refine ⟨htid, htype, ?_, ?_, .inl htiling⟩
      · rw [hflags, BitVec.and_self]
      · rw [halloc]
        exact id
  · intro halias
    rw [hvalid.single] at halias
    cases halias

/-- A placement starts. -/
theorem Inv.place {dedicated : Bool} (hinv : Inv config st) (hvalid : ValidRequest r)
    (hplace : place config st r dedicated = some st') : Inv config st' := by
  obtain ⟨_, hallocate⟩ | rfl := place_cases hplace
  · exact hinv.allocate hvalid hallocate
  · apply hinv.setSearches
    intro tid search hsearch
    by_cases heq : tid = r.tid
    · subst heq
      rw [Function.update_self] at hsearch
      cases hsearch
      exact ⟨rfl, hvalid⟩
    · rw [Function.update_of_ne heq] at hsearch
      exact hinv.searches tid search hsearch

/-- No live object is at the offset of a pending delete. -/
theorem Inv.offset_not_mem_deletes (hinv : Inv config st) {key : Key} {g : Grant}
    (hg : st.history.bound key = some g) (hsingle : g.entry.aliasMember = false)
    (hheap : st.heap g.home = some h) : g.entry.offset ∉ h.deletes := by
  obtain ⟨-, hfreed, x, hx, hmem, -⟩ := hinv.placed key g hg hsingle
  rw [hheap] at hx
  cases hx
  obtain ⟨hdeletes, hsubs⟩ := hinv.deletes g.home h hheap
  rw [hdeletes, List.mem_map]
  rintro ⟨s, hs, hoffset⟩
  have heq := (hinv.heaps g.home h hheap).1.eq_of_offset (hsubs s hs) hmem hoffset
  exact hfreed (heq ▸ hs)

/-- **The pending deletes of a heap are applied.** -/
theorem Inv.drain (hinv : Inv config st) (hheap : st.heap ref = some h) :
    Inv config { st.setHeap ref (drain h) with
      history := { st.history with freed := Function.update st.history.freed ref [] } } := by
  obtain ⟨hok, hdeletes, hsubs, halive, hsame⟩ := drain_spec (hinv.heaps ref h hheap).1
  refine hinv.replace hheap hok (by rw [hdeletes]; exact hsame) hdeletes
    (fun s hs => absurd hs List.not_mem_nil) (fun key g hg hsingle heq => ?_)
    fun _ hnone => ⟨rfl, ?_⟩
  · have hkept := hinv.offset_not_mem_deletes hg hsingle (heq ▸ hheap)
    obtain ⟨-, -, x, hx, hmem, hmemory, -⟩ := hinv.placed key g hg hsingle
    rw [heq] at hx
    cases hheap.symm.trans hx
    have hmem' := (hsubs g.entry).mpr ⟨hmem, hkept⟩
    exact ⟨List.not_mem_nil, hmem', (halive (List.ne_nil_of_mem hmem')).1.trans hmemory⟩
  · -- nothing is ever deleted from the memory of a group
    have hempty : h.deletes = [] := by
      rw [(hinv.deletes ref h hheap).1, hnone, List.map_nil]
    simp [Suballocator.drain, hempty]

/-- **One step of a search.** -/
theorem Inv.advance (hinv : Inv config st) (hadvance : advance config st tid = some st') :
    Inv config st' := by
  obtain ⟨search, hsearch, hadvanced⟩ := advance_advanced hadvance
  obtain ⟨htid, hvalid⟩ := hinv.searches tid search hsearch
  -- the searches of the other threads, and this one with the same request
  have hothers : ∀ {search' : Option Search}, (∀ x, search' = some x →
      x.request = search.request) → ∀ tid' x,
      Function.update st.searches tid search' tid' = some x →
        x.request.tid = tid' ∧ ValidRequest x.request := by
    intro search' hsame tid' x hx
    by_cases heq : tid' = tid
    · subst heq
      rw [Function.update_self] at hx
      rw [hsame x hx]
      exact ⟨htid, hvalid⟩
    · rw [Function.update_of_ne heq] at hx
      exact hinv.searches tid' x hx
  have hsame : ∀ {search' : Search}, search'.request = search.request →
      ∀ x, some search' = some x → x.request = search.request := by
    rintro search' hrequest x ⟨⟩
    exact hrequest
  have hidle : Inv config { st with searches := Function.update st.searches tid none } :=
    hinv.setSearches (hothers (by simp))
  cases hadvanced with
  | allocated hallocate => exact hidle.allocate hvalid hallocate
  | passed => exact hinv.setSearches (hothers (hsame rfl))
  | drained hheap => exact (hinv.drain hheap).setSearches (hothers (hsame rfl))
  | @placed h h' placed _ hheap hsuits hplace hbind =>
      simp only [suits, decide_eq_true_eq] at hsuits
      obtain ⟨hmem, -, hgroup, htid', hflags, haddress, hroom, htype, htiling⟩ := hsuits
      obtain ⟨hok, hkept, hplaced, -, hsubs, hnew⟩ :=
        placeIn_spec (hinv.heaps _ h hheap).1 hvalid.aligned hvalid.positive hroom hplace
      have hidleHeap : State.heap { st with
          searches := Function.update st.searches tid none } (tid, search.next) =
          some h := hheap
      have hgrown := hidle.grow hidleHeap hok hkept fun x hx => (hsubs x).mpr (.inr hx)
      have hsingle : placed.aliasMember = false := by
        rw [hplaced]
        exact hvalid.single
      apply hgrown.bind hbind (fun _ => hsingle)
      · intro _
        refine ⟨rfl, fun hfreed => ?_, h', ?_, (hsubs placed).mpr (.inl rfl), ?_, ?_, ?_⟩
        · exact hnew ((hinv.deletes _ h hheap).2 placed hfreed)
        · rw [State.heap_setHeap hidleHeap, if_pos rfl]
        · rw [hkept]
          exact hmem
        · rw [hkept]
          exact hgroup
        · rw [hkept]
          refine ⟨htid', htype, hflags, fun hasked => ?_, htiling⟩
          exact haddress.resolve_left hasked
      · intro halias
        rw [hsingle] at halias
        cases halias

/-- An object is forgotten: it loses its lookup. -/
theorem Inv.forget {key : Key} {lookups : Lookups} (hinv : Inv config st)
    (hother : ∀ key', key' ≠ key → lookups.find key' = st.lookups.find key')
    (hcleared : ∀ l, lookups.find key = some l → l.home = none)
    (hdistinct : lookups.Distinct) :
    Inv config { st with
      lookups := lookups
      history := { st.history with bound := Function.update st.history.bound key none } } := by
  have hbound : ∀ {key' g}, Function.update st.history.bound key none key' = some g →
      key' ≠ key ∧ st.history.bound key' = some g := by
    intro key' g hg
    by_cases heq : key' = key
    · subst heq
      rw [Function.update_self] at hg
      cases hg
    · rw [Function.update_of_ne heq] at hg
      exact ⟨heq, hg⟩
  refine { hinv with located := ?_, known := ?_, placed := ?_, member := ?_,
                     distinct := hdistinct }
  · intro key' g hg
    obtain ⟨hne, hg⟩ := hbound hg
    obtain ⟨l, hl, hlocates⟩ := hinv.located key' g hg
    exact ⟨l, (hother key' hne).trans hl, hlocates⟩
  · intro key' l ref' hl hhome
    have hne : key' ≠ key := by
      rintro rfl
      rw [hcleared l hl] at hhome
      cases hhome
    obtain ⟨g, hg⟩ := hinv.known key' l ref' ((hother key' hne).symm.trans hl) hhome
    exact ⟨g, (Function.update_of_ne hne _ _).trans hg⟩
  · intro key' g hg hsingle
    obtain ⟨hkey, hfreed, hheap⟩ := hinv.placed key' g (hbound hg).2 hsingle
    exact ⟨hkey, hfreed, hheap⟩
  · intro key' g hg halias
    exact hinv.member key' g (hbound hg).2 halias

/-- A delete is queued for an entry that belongs to no bound object. -/
theorem Inv.queueDelete (hinv : Inv config st) (hheap : st.heap home = some h)
    (hmem : s ∈ h.subs) (hgroup : h.aliasGroup = false)
    (hfree : ∀ key g, st.history.bound key = some g → g.entry.aliasMember = false → g.entry ≠ s) :
    Inv config { st.setHeap home { h with deletes := h.deletes ++ [s.offset] } with
      history := { st.history with
        freed := Function.update st.history.freed home (st.history.freed home ++ [s]) } } := by
  have hok := (hinv.heaps home h hheap).1
  have hok' : WellFormed { h with deletes := h.deletes ++ [s.offset] } :=
    ⟨hok.separated, hok.inside, hok.positive, hok.aligned, hok.accounted, hok.small⟩
  obtain ⟨hdeletes, hsubs⟩ := hinv.deletes home h hheap
  have hqueued : h.deletes ++ [s.offset] =
      (st.history.freed home ++ [s]).map Suballocation.offset := by
    rw [List.map_append, hdeletes, List.map_singleton]
  refine hinv.replace hheap hok' rfl hqueued (fun x hx => ?_)
    (fun key g hg hsingle heq => ?_) fun halias => ?_
  · cases List.mem_append.mp hx with
    | inl hx => exact hsubs x hx
    | inr hx => exact List.mem_singleton.mp hx ▸ hmem
  · obtain ⟨-, hkept, x, hx, hentry, hmemory, -⟩ := hinv.placed key g hg hsingle
    rw [heq] at hkept hx
    cases hheap.symm.trans hx
    refine ⟨?_, hentry, hmemory⟩
    rw [List.mem_append, List.mem_singleton, not_or]
    exact ⟨hkept, hfree key g hg hsingle⟩
  · -- the memory of a group is no place of a single object
    rw [hgroup] at halias
    cases halias

/-- **An object is freed.** -/
theorem Inv.release {key : Key} {l : Lookup} {lookups : Lookups} (hinv : Inv config st)
    (hfind : st.lookups.find key = some l)
    (hother : ∀ key', key' ≠ key → lookups.find key' = st.lookups.find key')
    (hcleared : ∀ l, lookups.find key = some l → l.home = none)
    (hdistinct : lookups.Distinct) :
    Inv config { release st key l with lookups := lookups } := by
  have hforgotten := hinv.forget hother hcleared hdistinct
  unfold Suballocator.release
  split
  · case _ hnone =>
    -- an object without a home is not bound
    have hunbound : st.history.bound key = none := by
      cases hg : st.history.bound key with
      | none => rfl
      | some g =>
          obtain ⟨l', hl', hhome, -⟩ := hinv.located key g hg
          rw [hfind] at hl'
          cases hl'
          rw [hnone] at hhome
          cases hhome
    rw [← hunbound, Function.update_eq_self] at hforgotten
    exact hforgotten
  · case _ home hhome =>
    obtain ⟨g, hg⟩ := hinv.known key l home hfind hhome
    obtain ⟨l', hl', hhome', hoffset, -, halias⟩ := hinv.located key g hg
    rw [hfind] at hl'
    cases hl'
    rw [hhome] at hhome'
    cases hhome'
    simp only
    split
    · exact hforgotten
    · case _ hsingle =>
      rw [Bool.not_eq_true] at hsingle
      obtain ⟨hkey, -, h, hheap, hmem, -, hgroup, -⟩ :=
        hinv.placed key g hg (halias.symm.trans hsingle)
      obtain ⟨hok, -⟩ := hinv.heaps g.home h hheap
      -- heaps are so small that the offset survives in 32 bits
      have htruncated : l.offset % 2 ^ 32 = g.entry.offset := by
        have hinside := hok.inside g.entry hmem
        have hsmall := hok.small
        unfold Suballocation.stop at hinside
        rw [hoffset]
        omega
      rw [hheap]
      simp only [htruncated, hg, Option.map_some, Option.toList_some]
      refine hforgotten.queueDelete hheap hmem hgroup ?_
      intro key' g' hg' hsingle'
      change Function.update st.history.bound key none key' = some g' at hg'
      intro heq
      by_cases hsame : key' = key
      · rw [hsame, Function.update_self] at hg'
        cases hg'
      · rw [Function.update_of_ne hsame] at hg'
        have hkey' := (hinv.placed key' g' hg' hsingle').key_eq
        rw [heq, hkey] at hkey'
        exact hsame hkey'.symm

theorem Inv.freeObject {type : ObjectType} {index : Nat} (hinv : Inv config st)
    (hfree : freeObject st type index = some st') : Inv config st' := by
  obtain rfl | ⟨l, hfind, rfl⟩ := freeObject_cases hfree
  · exact hinv
  · have hset := Lookups.find_set { l with home := none } hfind
    apply hinv.release hfind
    · intro key' hne
      rw [hset, if_neg hne]
    · intro l' hl'
      rw [hset, if_pos rfl] at hl'
      cases hl'
      rfl
    · unfold Lookups.Distinct
      rw [Lookups.datagraph_set]
      exact hinv.distinct

theorem Inv.freeEntries {session : Nat} {entries : List DatagraphLookup} (hinv : Inv config st)
    (hentries : st.lookups.datagraphpipelinesession[session]? = some entries) :
    Inv config (freeEntries session entries st) := by
  induction entries generalizing st with
  | nil => exact hinv
  | cons e rest ih =>
      unfold Suballocator.freeEntries
      simp only
      have hlookups : (Suballocator.release st
          (.binding session e.bindPoint e.objectIndex) e.loc).lookups = st.lookups := by
        unfold Suballocator.release
        split
        · rfl
        · simp only
          split
          · rfl
          · split <;> rfl
      have hdistinct := hinv.distinct _ (List.mem_of_getElem? hentries)
      rw [List.pairwise_cons] at hdistinct
      have hpop := Lookups.find_pop hentries hdistinct.1
      have hfind : st.lookups.find (.binding session e.bindPoint e.objectIndex) = some e.loc := by
        simp [Lookups.find, hentries]
      rw [hlookups]
      apply ih
      · apply hinv.release hfind
        · intro key' hne
          rw [hpop, if_neg hne]
        · intro l hl
          rw [hpop, if_pos rfl] at hl
          cases hl
        · intro entries' hmem
          cases List.mem_or_eq_of_mem_set hmem with
          | inl hmem => exact hinv.distinct entries' hmem
          | inr heq => exact heq ▸ hdistinct.2
      · have hlt := (List.getElem?_eq_some_iff.mp hentries).1
        simp [hlt]

/-- **The memory of an alias group is reserved.** -/
theorem Inv.reserveGroup {group : Nat} {g : AliasGroup} (hinv : Inv config st)
    (hg : st.aliases.groups[group]? = some g) (hfirst : st.groupHome group = none)
    (hreserve : reserveGroup config st tid group g = some st') : Inv config st' := by
  obtain ⟨_, h, hnew, rfl⟩ := reserveGroup_eq_some hreserve
  obtain ⟨hok, -, hdeletes, -, htid, -, -, -, -, -, halias, htotal⟩ :=
    newHeap_spec (hinv.sized g (List.mem_of_getElem? hg)) rfl hnew
  have hpushed := hinv.push hok htid hdeletes
  have hheap : (st.pushHeap tid h).heap (tid, (st.heaps tid).length) = some h := by
    rw [State.heap_pushHeap, if_pos rfl]
  -- no other group lives in a heap that did not exist
  have hother : ∀ group' ref', st.groupHome group' = some ref' →
      ref' ≠ (tid, (st.heaps tid).length) := by
    rintro group' ref' hhome rfl
    obtain ⟨-, x, -, hx, -⟩ := hinv.homes group' _ hhome
    rw [State.heap_length] at hx
    cases hx
  have hhome : ∀ {group' ref'}, Function.update st.groupHome group
      (some (tid, (st.heaps tid).length)) group' = some ref' →
      (group' = group ∧ ref' = (tid, (st.heaps tid).length)) ∨
        st.groupHome group' = some ref' := by
    intro group' ref' hhome
    by_cases heq : group' = group
    · subst heq
      rw [Function.update_self] at hhome
      exact .inl ⟨rfl, (Option.some.inj hhome).symm⟩
    · rw [Function.update_of_ne heq] at hhome
      exact .inr hhome
  refine { hpushed with placed := ?_, member := ?_, homes := ?_, apart := ?_ }
  · intro key g' hg' hsingle
    obtain ⟨hkey, hfreed, hplaced⟩ := hpushed.placed key g' hg' hsingle
    exact ⟨hkey, hfreed, hplaced⟩
  · intro key g' hg' hmember
    obtain ⟨type, index, group', hkey, hlookup, hhome'⟩ := hinv.member key g' hg' hmember
    refine ⟨type, index, group', hkey, hlookup, ?_⟩
    have hne : group' ≠ group := by
      rintro rfl
      rw [hfirst] at hhome'
      cases hhome'
    exact (Function.update_of_ne hne _ _).trans hhome'
  · intro group' ref' hhome'
    obtain ⟨rfl, rfl⟩ | hhome' := hhome hhome'
    · refine ⟨hinv.unborn _ State.heap_length, h, g, hheap, halias, hg, ?_⟩
      rw [htotal]
      simp [allocationSize]
    · exact hpushed.homes group' ref' hhome'
  · intro group₁ group₂ ref' hhome₁ hhome₂
    obtain ⟨rfl, rfl⟩ | hold₁ := hhome hhome₁
    · obtain ⟨rfl, -⟩ | hold₂ := hhome hhome₂
      · rfl
      · exact absurd rfl (hother _ _ hold₂)
    · obtain ⟨rfl, rfl⟩ | hold₂ := hhome hhome₂
      · exact absurd rfl (hother _ _ hold₁)
      · exact hinv.apart group₁ group₂ ref' hold₁ hold₂

/-- **A member of a group is bound.** -/
theorem Inv.bindMember {group offset : Nat} {data : TrackedObject} (hinv : Inv config st)
    (hlookup : st.aliases.lookup data.key = some ⟨some group, offset⟩)
    (hbind : bindMember st tid group offset data = some st') : Inv config st' := by
  have htype : data.objectType ≠ .dataGraphPipelineSession := by
    intro heq
    simp [Aliases.lookup, TrackedObject.key, heq, Aliases.table] at hlookup
  obtain ⟨home, h, hhome, hheap, hbind⟩ := bindMember_eq_some hbind
  apply hinv.bind hbind
  · intro heq
    exact absurd heq htype
  · intro halias
    cases halias
  · intro _
    refine ⟨data.objectType, data.index, group, ?_, hlookup, hhome⟩
    exact if_neg htype

/-- The sizes of a call are not zero and its alignments are powers of two. -/
def Label.Valid : Label → Prop
  | .addTrackedobject _ data => 0 < data.reqs.size ∧ ∃ k, data.reqs.alignment = 2 ^ k
  | .addDatagraphpipelinesession _ data => 0 < data.reqs.size ∧ ∃ k, data.reqs.alignment = 2 ^ k
  | _ => True

theorem Inv.addTrackedobject {data : TrackedObject} (hinv : Inv config st)
    (hvalid : (Label.addTrackedobject tid data).Valid)
    (hadd : addTrackedobject config st tid data = some st') : Inv config st' := by
  cases addTrackedobject_added hadd with
  | later hget hbind => exact hinv.bindMember (Aliases.lookup_of_getAliasLookup hget) hbind
  | first hget hg hfirst hreserve hbind =>
      have hreserved := hinv.reserveGroup hg hfirst hreserve
      obtain ⟨_, h, -, rfl⟩ := reserveGroup_eq_some hreserve
      exact hreserved.bindMember (Aliases.lookup_of_getAliasLookup hget) hbind
  | single _ _ halignment hplace =>
      exact hinv.place ⟨hvalid.1, Nat.pos_of_ne_zero halignment, rfl, rfl⟩ hplace

theorem Inv.addDatagraphpipelinesession {data : SessionBinding} (hinv : Inv config st)
    (hvalid : (Label.addDatagraphpipelinesession tid data).Valid)
    (hadd : addDatagraphpipelinesession config st tid data = some st') : Inv config st' := by
  obtain ⟨halignment, _, hplace⟩ := addDatagraphpipelinesession_eq_some hadd
  exact hinv.place ⟨hvalid.1, Nat.pos_of_ne_zero halignment, rfl, rfl⟩ hplace

/-- **Every call and every step of a search keeps the invariant.** -/
theorem step_inv {label : Label} (hinv : Inv config st) (hvalid : label.Valid)
    (hstep : step config st label = some st') : Inv config st' := by
  cases label with
  | addTrackedobject tid data => exact hinv.addTrackedobject hvalid hstep
  | addDatagraphpipelinesession tid data => exact hinv.addDatagraphpipelinesession hvalid hstep
  | advance tid => exact hinv.advance hstep
  | freeImage index => exact hinv.freeObject hstep
  | freeBuffer index => exact hinv.freeObject hstep
  | freeTensor index => exact hinv.freeObject hstep
  | freeDatagraphpipelinesession index =>
      obtain rfl | ⟨entries, hentries, rfl⟩ := freeDatagraphpipelinesession_cases hstep
      · exact hinv
      · exact hinv.freeEntries hentries

theorem create_inv (config : Config) (threads images buffers tensors sessions : Nat)
    {aliases : Aliases} (hsized : ∀ g ∈ aliases.groups, 0 < g.size) :
    Inv config (create threads images buffers tensors sessions aliases) where
  heaps := by simp [State.heap, create]
  deletes := by simp [State.heap, create]
  unborn := fun _ _ => rfl
  located := fun _ _ hg => by cases hg
  known := by
    intro key l ref hfind hhome
    have hfresh : ∀ (n index : Nat), (List.replicate n ({} : Lookup))[index]? = some l → False := by
      intro n index hsome
      rw [List.eq_of_mem_replicate (List.mem_of_getElem? hsome)] at hhome
      cases hhome
    cases key with
    | object type index =>
        cases type
        case image => exact (hfresh _ _ hfind).elim
        case buffer => exact (hfresh _ _ hfind).elim
        case tensor => exact (hfresh _ _ hfind).elim
        all_goals cases hfind
    | binding session bindPoint objectIndex =>
        obtain ⟨entries, hentries, hentry⟩ := Option.bind_eq_some_iff.mp hfind
        rw [List.eq_of_mem_replicate (List.mem_of_getElem? hentries)] at hentry
        cases hentry
  placed := fun _ _ hg => by cases hg
  member := fun _ _ hg => by cases hg
  homes := fun _ _ hhome => by cases hhome
  apart := fun _ _ _ hhome => by cases hhome
  distinct := by
    intro entries hmem
    rw [List.eq_of_mem_replicate hmem]
    exact .nil
  sized := hsized
  searches := fun _ _ hsearch => by cases hsearch

/-- The invariant holds in every state of a run. -/
theorem run_inv {threads images buffers tensors sessions : Nat} {aliases : Aliases}
    {labels : List Label} (hsized : ∀ g ∈ aliases.groups, 0 < g.size)
    (hvalid : ∀ label ∈ labels, label.Valid)
    (hrun : exec (step config) (create threads images buffers tensors sessions aliases) labels =
      some st) : Inv config st := by
  have halong : Along (step config) (fun _ label => label.Valid)
      (create threads images buffers tensors sessions aliases) labels := along_of_forall hvalid
  exact exec_invariant (fun _ _ _ hinv hlabel hstep => step_inv hinv hlabel hstep)
    (create_inv config threads images buffers tensors sessions hsized) halong hrun

/-- Two live objects outside the alias groups share no byte. -/
theorem Inv.entries_disjoint (hinv : Inv config st) {key key' : Key} {g g' : Grant}
    (hg : st.history.bound key = some g) (hg' : st.history.bound key' = some g')
    (hsingle : g.entry.aliasMember = false) (hsingle' : g'.entry.aliasMember = false)
    (hne : key ≠ key') (hhome : g.home = g'.home) :
    g.entry.stop ≤ g'.entry.offset ∨ g'.entry.stop ≤ g.entry.offset := by
  obtain ⟨hkey, -, h, hheap, hmem, -⟩ := hinv.placed key g hg hsingle
  obtain ⟨hkey', -, h', hheap', hmem', -⟩ := hinv.placed key' g' hg' hsingle'
  rw [← hhome, hheap] at hheap'
  cases hheap'
  cases (hinv.heaps g.home h hheap).1.eq_or_disjoint hmem hmem' with
  | inl heq =>
      rw [heq, hkey'] at hkey
      exact absurd hkey.symm hne
  | inr hdisjoint => exact hdisjoint

end Steps

/-- **The suballocator heap invariant.**  Take any run of placements and frees by any
number of threads, with the steps of the searches in any order, sizes above zero and
alignments that are powers of two.  In the state it reaches:

* in every heap the entries are strictly increasing in offset, disjoint, inside the heap
  and aligned, and the free space is the total minus the sum of the sizes;
* every object that is bound and not freed has a lookup, which names an entry of its heap
  with the same offset and size, and the heap has the memory type, thread, flags and
  tiling that were asked for;
* draining a heap removes exactly the entries of the objects freed there, none of which
  belongs to a live object;
* no two live objects share a byte. -/
theorem heap_invariant {config : Config} {threads images buffers tensors sessions : Nat}
    {aliases : Aliases} (hsized : ∀ g ∈ aliases.groups, 0 < g.size) {labels : List Label}
    (hvalid : ∀ label ∈ labels, label.Valid) {st : State}
    (hrun : exec (step config) (create threads images buffers tensors sessions aliases) labels =
      some st) :
    (∀ ref h, st.heap ref = some h →
      h.subs.Pairwise (fun s s' => s.offset < s'.offset) ∧
      h.subs.Pairwise (fun s s' => s.stop ≤ s'.offset) ∧
      (∀ s ∈ h.subs, s.stop ≤ h.total ∧ s.alignment ∣ s.offset) ∧
      (h.subs.map Suballocation.size).sum ≤ h.total ∧
      h.free = h.total - (h.subs.map Suballocation.size).sum) ∧
    (∀ key g, st.history.bound key = some g → g.entry.aliasMember = false →
      ∃ l h s, st.lookups.find key = some l ∧ l.home = some g.home ∧
        st.heap g.home = some h ∧ s ∈ h.subs ∧ s.key = key ∧ s.offset = l.offset ∧
        s.size = l.size ∧ Granted config h g.request) ∧
    (∀ ref h, st.heap ref = some h →
      (∀ s, s ∈ (drain h).subs ↔ s ∈ h.subs ∧ s ∉ st.history.freed ref) ∧
      (∀ s ∈ st.history.freed ref, s ∈ h.subs ∧ ∀ key g, st.history.bound key = some g →
        g.entry.aliasMember = false → g.home = ref → g.entry ≠ s)) ∧
    (∀ key key' g g', st.history.bound key = some g → st.history.bound key' = some g' →
      g.entry.aliasMember = false → g'.entry.aliasMember = false → key ≠ key' →
      g.home = g'.home →
      g.entry.stop ≤ g'.entry.offset ∨ g'.entry.stop ≤ g.entry.offset) := by
  have hinv := run_inv hsized hvalid hrun
  refine ⟨?_, ?_, ?_, ?_⟩
  · intro ref h hheap
    obtain ⟨hok, -⟩ := hinv.heaps ref h hheap
    have haccounted := hok.accounted
    refine ⟨?_, hok.separated, fun s hs => ⟨hok.inside s hs, hok.aligned s hs⟩, by omega,
      by omega⟩
    refine List.Pairwise.imp_of_mem (fun {s s'} hs _ hstop => ?_) hok.separated
    have hpos := hok.positive s hs
    unfold Suballocation.stop at hstop
    omega
  · intro key g hg hsingle
    obtain ⟨l, hl, hhome, hoffset, hsize, -⟩ := hinv.located key g hg
    obtain ⟨hkey, -, h, hheap, hmem, -, -, hgranted⟩ := hinv.placed key g hg hsingle
    exact ⟨l, h, g.entry, hl, hhome, hheap, hmem, hkey, hoffset.symm, hsize.symm, hgranted⟩
  · intro ref h hheap
    obtain ⟨hok, -⟩ := hinv.heaps ref h hheap
    obtain ⟨hdeletes, hsubs⟩ := hinv.deletes ref h hheap
    refine ⟨fun s => ?_, fun s hs => ⟨hsubs s hs, ?_⟩⟩
    · rw [(drain_spec hok).2.2.1, hdeletes, List.mem_map]
      refine and_congr_right fun hs => not_congr ⟨?_, fun hfreed => ⟨s, hfreed, rfl⟩⟩
      rintro ⟨s', hs', hoffset⟩
      exact hok.eq_of_offset (hsubs s' hs') hs hoffset ▸ hs'
    · rintro key g hg hsingle rfl heq
      exact (hinv.placed key g hg hsingle).not_freed (heq ▸ hs)
  · intro key key' g g' hg hg' hsingle hsingle' hne hhome
    exact hinv.entries_disjoint hg hg' hsingle hsingle' hne hhome

/-- One memory type with every property. -/
def oneType : Config where
  minHeapSize := 64
  memoryTypes := [BitVec.allOnes 32]

/-- A buffer of the given size. -/
def bufferOf (index size : Nat) : TrackedObject where
  objectType := .buffer
  index := index
  reqs := { size := size, alignment := 8, memoryTypeBits := 1 }

/-- Two buffers are placed in a new heap; the first one is freed and its place is given to
a third buffer. -/
def reuse : List Label :=
  [.addTrackedobject 0 (bufferOf 0 20), .advance 0,
   .addTrackedobject 0 (bufferOf 1 20), .advance 0, .advance 0,
   .freeBuffer 0,
   .addTrackedobject 0 (bufferOf 2 16), .advance 0, .advance 0]

theorem heap_invariant_reuse :
    ∃ st, exec (step oneType) (create 1 0 3 0 0
        { bufferAliasLookup := List.replicate 3 {} }) reuse = some st ∧
      ∀ ref h, st.heap ref = some h →
        h.free = h.total - (h.subs.map Suballocation.size).sum := by
  have hrun : ∃ st, exec (step oneType) (create 1 0 3 0 0
      { bufferAliasLookup := List.replicate 3 {} }) reuse = some st :=
    Option.isSome_iff_exists.mp (by decide)
  obtain ⟨st, hst⟩ := hrun
  have hvalid : ∀ label ∈ reuse, label.Valid := by
    have hsize : ∀ index size, 0 < size → (Label.addTrackedobject 0 (bufferOf index size)).Valid :=
      fun _ _ hpos => ⟨hpos, 3, rfl⟩
    simp only [reuse, List.forall_mem_cons]
    refine ⟨hsize 0 20 (by decide), trivial, hsize 1 20 (by decide), trivial, trivial, trivial,
      hsize 2 16 (by decide), trivial, trivial, by simp⟩
  refine ⟨st, hst, fun ref h hheap => ?_⟩
  exact ((heap_invariant (by simp) hvalid hst).1 ref h hheap).2.2.2.2

end Suballocator
end Lavatube
