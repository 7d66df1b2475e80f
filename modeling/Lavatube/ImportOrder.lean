import Lavatube.Replay

/-!
# Threadless metacommands of an import

The metacommands of a gfxreconstruct capture, such as the builds of acceleration structures,
belong to no thread of the application.  The importer writes them to thread 0, which is
reserved for them.  A barrier on thread 0 stands in front of the first metacommand of a
region, and barriers on all other threads stand behind the region, which is over at the end
of a resource initialization, or of the import.  A thread of the application has a barrier in
front of its first packet.

* `Block`, `step` — the imported blocks, with the packets they write.
* `State.imported` — the packets in the order in which they were imported.
* `Barred` — a barrier in front of one packet covers another one.
* `metacommands_keep_place` — on replay the metacommands are executed where they were
  imported.
-/

namespace Lavatube
namespace ImportOrder

open Transition
open Replay (Packet)

/-! ## The importer -/

/-- A packet by its thread and its number. -/
structure PacketId where
  thread : Nat
  packet : Nat
deriving DecidableEq, Repr

/-- The writer and the import context.  `threadIndices` has the thread indices by the thread
ids of the capture, `commands` is whether `acceleration_structure_commands` has entries. -/
structure State where
  count : Nat
  streams : Nat → List Packet
  threadIndices : Nat → Option Nat := fun _ => none
  active : Bool := false
  commands : Bool := false
  imported : List PacketId := []

/-- `import_thread_endpoints`. -/
def importThreadEndpoints (s : State) : List Nat :=
  (List.range s.count).map fun i => (s.streams i).length

/-- A packet on a thread. -/
def writePacket (s : State) (t : Nat) (packet : Packet) : State :=
  { s with streams := Function.update s.streams t (s.streams t ++ [packet]) }

/-- `write_thread_barrier` on a thread. -/
def writeThreadBarrier (s : State) (t : Nat) (endpoints : List Nat) : State :=
  writePacket s t (.threadBarrier endpoints)

/-- The packets of an imported block. -/
def writeBlock (s : State) (t : Nat) (packets : List Packet) : State :=
  { s with
    streams := Function.update s.streams t (s.streams t ++ packets)
    imported := s.imported ++ (List.range packets.length).map fun i =>
      ⟨t, (s.streams t).length + i⟩ }

/-- The start of an import: thread 0 has a barrier. -/
def initial : State :=
  writeThreadBarrier { count := 1, streams := fun _ => [] } 0 [0]

/-- `import_select_thread`, with the index of the thread that is bound. -/
def importSelectThread (s : State) (thread : Nat) : Option (State × Nat) :=
  match s.threadIndices thread with
  | some t => some (s, t)
  | none =>
      if s.count ≥ 255 then none
      else
        let prepared : State := { s with
          count := s.count + 1
          threadIndices := Function.update s.threadIndices thread (some s.count) }
        some (writeThreadBarrier prepared s.count (importThreadEndpoints prepared), s.count)

/-- `import_threadless_metacommand_begin`. -/
def importThreadlessMetacommandBegin (s : State) : State :=
  if s.active then s
  else { writeThreadBarrier s 0 (importThreadEndpoints s) with active := true }

/-- `import_threadless_metacommand_end`. -/
def importThreadlessMetacommandEnd (s : State) : State :=
  if s.active then
    { (List.range' 1 (s.count - 1)).foldl
        (fun written t => writeThreadBarrier written t (importThreadEndpoints s)) s with
      active := false }
  else s

/-- `finish_acceleration_structure_commands`, with the packets of its calls. -/
def finishAccelerationStructureCommands (s : State) (packets : List Packet) : State :=
  if s.commands then
    { writeBlock (importThreadlessMetacommandBegin s) 0 packets with commands := false }
  else s

/-- The imported blocks, with the packets they write: a block of an application thread (a
call, a memory update, the initialization of a resource), a metacommand without a thread, the
end of a resource initialization, and the end of the import.  Builds and copies use the
command buffer of the importer, a write of properties does not. -/
inductive Block where
  | application (thread : Nat) (packets : List Packet)
  | metacommand (usesCommands : Bool) (packets : List Packet)
  | resourceInitializationEnd (thread : Nat) (finish : List Packet)
  | importEnd (finish : List Packet)
deriving DecidableEq, Repr

/-- One imported block. -/
def step (s : State) : Block → Option State
  | .application thread packets =>
      (importSelectThread s thread).map fun selected => writeBlock selected.1 selected.2 packets
  | .metacommand usesCommands packets =>
      let begun := importThreadlessMetacommandBegin s
      some { writeBlock begun 0 packets with commands := begun.commands || usesCommands }
  | .resourceInitializationEnd thread finish =>
      (importSelectThread s thread).map fun selected =>
        importThreadlessMetacommandEnd (finishAccelerationStructureCommands selected.1 finish)
  | .importEnd finish =>
      some (importThreadlessMetacommandEnd (finishAccelerationStructureCommands s finish))

/-! ## Barriers -/

/-- A barrier in front of packet `q` covers packet `p` of another thread. -/
def Barred (streams : Nat → List Packet) (p q : PacketId) : Prop :=
  ∃ k < q.packet, ∃ indices index, (streams q.thread)[k]? = some (.threadBarrier indices) ∧
    indices[p.thread]? = some index ∧ p.packet < index

/-- **A barrier on replay**: a packet is executed only when the packets that a barrier in
front of it covers are complete. -/
theorem Barred.completed {count : Nat} {streams : Nat → List Packet} {p q : PacketId}
    (hbarred : Barred streams p q) (hother : p.thread ≠ q.thread) {schedule : List Nat}
    {readers : Replay.State}
    (hreplay : exec (Replay.step count streams) (fun _ => {}) schedule = some readers)
    (hstarted : (readers q.thread).Started q.packet) :
    p.packet < (readers p.thread).completed := by
  obtain ⟨k, hk, indices, index, hbarrier, hindex, hlt⟩ := hbarred
  have hinv := Replay.exec_inv hreplay q.thread
  have hpassed := hstarted.le_passed hinv.place
  have hsatisfied := hinv.passed k _ (by omega) hbarrier p.thread index hindex
  rcases hsatisfied with hsame | hle
  · exact absurd hsame hother
  · exact hlt.trans_le hle

/-- The next packet of a thread stands behind a barrier that covers all imported packets of
another thread. -/
def Behind (s : State) (t : Nat) (p : PacketId) : Prop :=
  Barred s.streams p ⟨t, (s.streams t).length⟩

variable {s next : State} {block : Block} {p q : PacketId} {t : Nat}

/-- The streams have only grown. -/
def Grows (streams longer : Nat → List Packet) : Prop :=
  ∀ i, streams i <+: longer i

theorem Grows.refl (streams : Nat → List Packet) : Grows streams streams :=
  fun _ => List.prefix_rfl

theorem Grows.getElem? {streams longer : Nat → List Packet} (hgrows : Grows streams longer)
    {i k : Nat} {packet : Packet} (hpacket : (streams i)[k]? = some packet) :
    (longer i)[k]? = some packet := by
  obtain ⟨rest, hrest⟩ := hgrows i
  have hlt := (List.getElem?_eq_some_iff.mp hpacket).1
  rw [← hrest, List.getElem?_append_left hlt, hpacket]

theorem grows_update (streams : Nat → List Packet) (t : Nat) (packets : List Packet) :
    Grows streams (Function.update streams t (streams t ++ packets)) := by
  intro i
  by_cases hi : i = t
  · subst hi
    rw [Function.update_self]
    exact List.prefix_append _ _
  · rw [Function.update_of_ne hi]

theorem Barred.mono {streams longer : Nat → List Packet} (hbarred : Barred streams p q)
    (hgrows : Grows streams longer) : Barred longer p q := by
  obtain ⟨k, hk, indices, index, hbarrier, hrest⟩ := hbarred
  exact ⟨k, hk, indices, index, hgrows.getElem? hbarrier, hrest⟩

/-- What stands behind a barrier stays behind it. -/
theorem Behind.mono (hbehind : Behind s t p) (hgrows : Grows s.streams next.streams) :
    Behind next t p := by
  obtain ⟨k, hk, indices, index, hbarrier, hrest⟩ := hbehind
  have hlength := (hgrows t).length_le
  exact ⟨k, hk.trans_le hlength, indices, index, hgrows.getElem? hbarrier, hrest⟩

/-- A barrier somewhere in the stream. -/
theorem behind_of_barrier {k index : Nat} {indices : List Nat}
    (hbarrier : (s.streams t)[k]? = some (.threadBarrier indices))
    (hindex : indices[p.thread]? = some index) (hlt : p.packet < index) : Behind s t p :=
  ⟨k, (List.getElem?_eq_some_iff.mp hbarrier).1, indices, index, hbarrier, hindex, hlt⟩

theorem importThreadEndpoints_getElem? {i : Nat} (hi : i < s.count) :
    (importThreadEndpoints s)[i]? = some (s.streams i).length := by
  simp [importThreadEndpoints, hi]

/-! ## What one block keeps -/

/-- In a region, the next metacommand is behind everything; outside of one, the next packet
of an application thread is behind all metacommands. -/
structure Inv (s : State) : Prop where
  count_pos : 0 < s.count
  inside : ∀ p ∈ s.imported, p.thread < s.count ∧ p.packet < (s.streams p.thread).length
  threads : ∀ thread t, s.threadIndices thread = some t → 0 < t ∧ t < s.count
  ordered : s.imported.Pairwise fun p q =>
    p.thread ≠ q.thread → p.thread = 0 ∨ q.thread = 0 → Barred s.streams p q
  parked : s.active = true → ∀ p ∈ s.imported, p.thread ≠ 0 → Behind s 0 p
  released : s.active = false → ∀ p ∈ s.imported, p.thread = 0 →
    ∀ t, 0 < t → t < s.count → Behind s t p

theorem inv_initial : Inv initial where
  count_pos := Nat.one_pos
  inside := by simp [initial, writeThreadBarrier, writePacket]
  threads := by simp [initial, writeThreadBarrier, writePacket]
  ordered := List.Pairwise.nil
  parked := by simp [initial, writeThreadBarrier, writePacket]
  released := by simp [initial, writeThreadBarrier, writePacket]

/-- A barrier with the endpoints of all threads has everything in front of it. -/
theorem Inv.behind_endpoints (hinv : Inv s) {longer : State} {k : Nat}
    (hbarrier : (longer.streams t)[k]? = some (.threadBarrier (importThreadEndpoints s)))
    (hp : p ∈ s.imported) : Behind longer t p := by
  obtain ⟨hthread, hpacket⟩ := hinv.inside p hp
  exact behind_of_barrier hbarrier (importThreadEndpoints_getElem? hthread) hpacket

/-- More barriers, and nothing imported. -/
theorem Inv.grow (hinv : Inv s) (hgrows : Grows s.streams next.streams)
    (himported : next.imported = s.imported) (hcount : s.count ≤ next.count)
    (hthreads : ∀ thread t, next.threadIndices thread = some t → 0 < t ∧ t < next.count)
    (hparked : next.active = true → ∀ p ∈ s.imported, p.thread ≠ 0 → Behind next 0 p)
    (hreleased : next.active = false → ∀ p ∈ s.imported, p.thread = 0 →
      ∀ t, 0 < t → t < next.count → Behind next t p) : Inv next where
  count_pos := hinv.count_pos.trans_le hcount
  inside p hp := by
    rw [himported] at hp
    obtain ⟨hthread, hpacket⟩ := hinv.inside p hp
    exact ⟨hthread.trans_le hcount, hpacket.trans_le (hgrows p.thread).length_le⟩
  threads := hthreads
  ordered := by
    rw [himported]
    exact hinv.ordered.imp fun hbarred hother hmeta => (hbarred hother hmeta).mono hgrows
  parked := by rwa [himported]
  released := by rwa [himported]

theorem writeThreadBarrier_getElem? (s : State) (t : Nat) (endpoints : List Nat) :
    ((writeThreadBarrier s t endpoints).streams t)[(s.streams t).length]? =
      some (.threadBarrier endpoints) := by
  simp [writeThreadBarrier, writePacket]

theorem grows_writeThreadBarrier (s : State) (t : Nat) (endpoints : List Nat) :
    Grows s.streams (writeThreadBarrier s t endpoints).streams :=
  grows_update _ _ _

/-- A thread is selected; a new one begins with a barrier. -/
theorem Inv.selectThread (hinv : Inv s) {thread : Nat}
    (hselect : importSelectThread s thread = some (next, t)) :
    Inv next ∧ 0 < t ∧ t < next.count ∧ next.active = s.active := by
  unfold importSelectThread at hselect
  split at hselect
  · case _ index hindex =>
      cases hselect
      exact ⟨hinv, (hinv.threads thread _ hindex).1, (hinv.threads thread _ hindex).2, rfl⟩
  · split at hselect
    · cases hselect
    · cases hselect
      -- a new thread: only its own stream has grown
      refine ⟨?_, hinv.count_pos, Nat.lt_succ_self _, rfl⟩
      refine hinv.grow (grows_update _ _ _) rfl (Nat.le_succ _) ?_ ?_ ?_
      · intro other index hindex
        by_cases hother : other = thread
        · have : s.count = index := by
            simpa [writeThreadBarrier, writePacket, hother] using hindex
          exact ⟨this ▸ hinv.count_pos, this ▸ Nat.lt_succ_self _⟩
        · have hold := hinv.threads other index (by
            simpa [writeThreadBarrier, writePacket, hother] using hindex)
          exact ⟨hold.1, hold.2.trans (Nat.lt_succ_self _)⟩
      · intro hactive p hp hne
        exact (hinv.parked hactive p hp hne).mono (grows_update _ _ _)
      · intro hactive p hp hzero i hpos hi
        rcases Nat.lt_succ_iff_lt_or_eq.mp hi with hold | rfl
        · exact (hinv.released hactive p hp hzero i hpos hold).mono (grows_update _ _ _)
        -- its barrier names the endpoints of all threads there are
        · obtain ⟨hthread, hpacket⟩ := hinv.inside p hp
          refine behind_of_barrier (writeThreadBarrier_getElem? _ _ _)
            (importThreadEndpoints_getElem? (hthread.trans (Nat.lt_succ_self _))) hpacket

/-- A region is entered: what is imported is in front of its barrier. -/
theorem Inv.metacommandBegin (hinv : Inv s) :
    Inv (importThreadlessMetacommandBegin s) ∧
      (importThreadlessMetacommandBegin s).active = true := by
  unfold importThreadlessMetacommandBegin
  split
  · case _ hactive => exact ⟨hinv, hactive⟩
  · refine ⟨?_, rfl⟩
    refine hinv.grow (grows_writeThreadBarrier s 0 _) rfl le_rfl hinv.threads ?_ ?_
    · intro _ p hp _
      exact hinv.behind_endpoints (writeThreadBarrier_getElem? s 0 _) hp
    · intro hactive
      cases hactive

/-- The barriers behind a region. -/
theorem foldl_writeThreadBarrier (endpoints l : List Nat) (s : State) :
    Grows s.streams (l.foldl (fun written t => writeThreadBarrier written t endpoints)
        s).streams ∧
      (∀ t ∈ l, ∃ k : Nat, ((l.foldl (fun written t => writeThreadBarrier written t endpoints)
        s).streams t)[k]? = some (Packet.threadBarrier endpoints)) ∧
      (l.foldl (fun written t => writeThreadBarrier written t endpoints) s).count = s.count ∧
      (l.foldl (fun written t => writeThreadBarrier written t endpoints) s).threadIndices =
        s.threadIndices ∧
      (l.foldl (fun written t => writeThreadBarrier written t endpoints) s).imported =
        s.imported := by
  induction l generalizing s with
  | nil => exact ⟨Grows.refl _, by simp, rfl, rfl, rfl⟩
  | cons t l ih =>
      obtain ⟨hgrows, hbarriers, hcount, hthreads, himported⟩ :=
        ih (writeThreadBarrier s t endpoints)
      refine ⟨fun i => (grows_writeThreadBarrier s t endpoints i).trans (hgrows i), ?_, hcount,
        hthreads, himported⟩
      intro i hi
      rcases List.mem_cons.mp hi with rfl | hrest
      · exact ⟨_, hgrows.getElem? (writeThreadBarrier_getElem? s i endpoints)⟩
      · exact hbarriers i hrest

/-- A region is left: all metacommands are in front of the barriers. -/
theorem Inv.metacommandEnd (hinv : Inv s) : Inv (importThreadlessMetacommandEnd s) := by
  unfold importThreadlessMetacommandEnd
  split
  · obtain ⟨hgrows, hbarriers, hcount, hthreads, himported⟩ :=
      foldl_writeThreadBarrier (importThreadEndpoints s) (List.range' 1 (s.count - 1)) s
    refine hinv.grow hgrows himported (le_of_eq hcount.symm) ?_ ?_ ?_
    · intro thread t ht
      simp only [hthreads] at ht
      simp only [hcount]
      exact hinv.threads thread t ht
    · intro hactive
      cases hactive
    · intro _ p hp _ t hpos ht
      simp only [hcount] at ht
      obtain ⟨k, hk⟩ := hbarriers t (List.mem_range'_1.mpr (by omega))
      exact hinv.behind_endpoints hk hp
  · exact hinv

/-- The packets of a block on a thread that is behind what it has to wait for. -/
theorem Inv.writeBlock (hinv : Inv s) (ht : t < s.count) {packets : List Packet}
    (hbehind : ∀ p ∈ s.imported, p.thread ≠ t → p.thread = 0 ∨ t = 0 → Behind s t p)
    (hplace : s.active = true ↔ t = 0) : Inv (writeBlock s t packets) := by
  have hgrows : Grows s.streams (ImportOrder.writeBlock s t packets).streams :=
    grows_update _ _ _
  have hnew : ∀ q ∈ (List.range packets.length).map fun i =>
      (⟨t, (s.streams t).length + i⟩ : PacketId),
      q.thread = t ∧ (s.streams t).length ≤ q.packet ∧
        q.packet < (s.streams t).length + packets.length := by
    intro q hq
    obtain ⟨i, hi, rfl⟩ := List.mem_map.mp hq
    have hi := List.mem_range.mp hi
    exact ⟨rfl, Nat.le_add_right _ _, by simpa using hi⟩
  constructor
  · exact hinv.count_pos
  · intro p hp
    rcases List.mem_append.mp hp with hold | hlast
    · obtain ⟨hthread, hpacket⟩ := hinv.inside p hold
      exact ⟨hthread, hpacket.trans_le (hgrows p.thread).length_le⟩
    · obtain ⟨hthread, -, hlt⟩ := hnew p hlast
      exact ⟨hthread ▸ ht, by simpa [ImportOrder.writeBlock, hthread] using hlt⟩
  · exact hinv.threads
  -- packets of before, packets of the block, and one of each
  · refine List.pairwise_append.mpr ⟨?_, ?_, ?_⟩
    · exact hinv.ordered.imp fun hbarred hother hmeta => (hbarred hother hmeta).mono hgrows
    · refine List.pairwise_of_forall_mem_list ?_
      intro p hp q hq hother
      -- all packets of the block are on one thread
      exact absurd ((hnew p hp).1.trans (hnew q hq).1.symm) hother
    · intro p hp q hq hother hmeta
      obtain ⟨hthread, hle, -⟩ := hnew q hq
      rw [hthread] at hother hmeta
      obtain ⟨k, hk, hbarrier⟩ := hbehind p hp hother hmeta
      have hbarred : Barred s.streams p q :=
        ⟨k, lt_of_lt_of_le hk hle, by rw [hthread]; exact hbarrier⟩
      exact hbarred.mono hgrows
  · intro hactive p hp hne
    rcases List.mem_append.mp hp with hold | hlast
    · exact (hinv.parked hactive p hold hne).mono hgrows
    · exact absurd ((hnew p hlast).1.trans (hplace.mp hactive)) hne
  · intro hinactive p hp hzero i hpos hi
    rcases List.mem_append.mp hp with hold | hlast
    · exact (hinv.released hinactive p hold hzero i hpos hi).mono hgrows
    · have hactive := hplace.mpr ((hnew p hlast).1.symm.trans hzero)
      rw [show s.active = false from hinactive] at hactive
      cases hactive

theorem writeBlock_nil (s : State) (t : Nat) : writeBlock s t [] = s := by
  simp [writeBlock]

/-- Metacommands, or the calls that free their command buffer. -/
theorem Inv.writeMetacommands (hinv : Inv s) (packets : List Packet) :
    Inv (ImportOrder.writeBlock (importThreadlessMetacommandBegin s) 0 packets) := by
  obtain ⟨hbegun, hactive⟩ := hinv.metacommandBegin
  apply hbegun.writeBlock hbegun.count_pos
  · intro p hp hne _
    exact hbegun.parked hactive p hp hne
  · exact iff_of_true hactive rfl

/-- The flag for the command buffer has no part in the invariant. -/
theorem Inv.setCommands (hinv : Inv s) (commands : Bool) :
    Inv { s with commands := commands } :=
  hinv.grow (Grows.refl _) rfl le_rfl hinv.threads hinv.parked hinv.released

theorem Inv.finishCommands (hinv : Inv s) (packets : List Packet) :
    Inv (finishAccelerationStructureCommands s packets) := by
  unfold finishAccelerationStructureCommands
  split
  · exact (hinv.writeMetacommands packets).setCommands false
  · exact hinv

/-- No packet of an application thread is imported inside a region. -/
def Parked (s : State) (block : Block) : Prop :=
  match block with
  | .application _ packets => s.active = false ∨ packets = []
  | _ => True

/-- **One block**, as long as the threads of the application are parked. -/
theorem Inv.step (hinv : Inv s) (hparked : Parked s block)
    (hstep : step s block = some next) : Inv next := by
  cases block with
  | application thread packets =>
      obtain ⟨⟨selected, t⟩, hselect, rfl⟩ := Option.map_eq_some_iff.mp hstep
      obtain ⟨hselected, hpos, ht, hsame⟩ := hinv.selectThread hselect
      rcases hparked with hinactive | rfl
      · rw [hinactive] at hsame
        apply hselected.writeBlock ht
        · intro p hp _ hmeta
          have hzero : p.thread = 0 := hmeta.resolve_right (by omega)
          exact hselected.released hsame p hp hzero t hpos ht
        · refine iff_of_false ?_ (by omega)
          rw [hsame]
          exact Bool.false_ne_true
      · rw [writeBlock_nil]
        exact hselected
  | metacommand usesCommands packets =>
      cases hstep
      exact (hinv.writeMetacommands packets).setCommands _
  | resourceInitializationEnd thread finish =>
      obtain ⟨⟨selected, t⟩, hselect, rfl⟩ := Option.map_eq_some_iff.mp hstep
      exact ((hinv.selectThread hselect).1.finishCommands finish).metacommandEnd
  | importEnd finish =>
      cases hstep
      exact (hinv.finishCommands finish).metacommandEnd

/-- **Metacommands keep their place.**  Of two imported packets on different threads, one of
them on thread 0, the later one is executed on replay only when the earlier one is complete:
in every import that parks the threads of the application inside the regions, and on every
schedule of the readers. -/
theorem metacommands_keep_place {blocks : List Block} {final : State}
    (hexec : exec step initial blocks = some final)
    (hparked : Along step Parked initial blocks) {schedule : List Nat} {readers : Replay.State}
    (hreplay : exec (Replay.step final.count final.streams) (fun _ => {}) schedule =
      some readers)
    {i j : Nat} (hij : i < j) (hp : final.imported[i]? = some p)
    (hq : final.imported[j]? = some q) (hother : p.thread ≠ q.thread)
    (hmeta : p.thread = 0 ∨ q.thread = 0)
    (hstarted : (readers q.thread).Started q.packet) :
    p.packet < (readers p.thread).completed := by
  have hinv := exec_invariant
    (fun s block next (hinv : Inv s) (hparked : Parked s block) hstep =>
      hinv.step hparked hstep) inv_initial hparked hexec
  obtain ⟨hi, rfl⟩ := List.getElem?_eq_some_iff.mp hp
  obtain ⟨hj, rfl⟩ := List.getElem?_eq_some_iff.mp hq
  have hbarred := List.pairwise_iff_getElem.mp hinv.ordered i j hi hj hij hother hmeta
  exact hbarred.completed hother hreplay hstarted

instance (s : State) : ∀ block, Decidable (Parked s block)
  | .application _ packets => inferInstanceAs (Decidable (s.active = false ∨ packets = []))
  | .metacommand .. | .resourceInitializationEnd .. | .importEnd _ => .isTrue trivial

/-- A call, a region with one build, and another call. -/
def closedRegion : List Block :=
  [.application 7 [.call []], .metacommand true [.call []],
    .resourceInitializationEnd 7 [], .application 7 [.call []]]

/-- A schedule that comes to the second call. -/
def closedSchedule : List Nat :=
  List.replicate 4 0 ++ List.replicate 9 1 ++ List.replicate 9 0 ++ List.replicate 5 1

/-- The second call is executed behind the build; its thread waits until then. -/
theorem metacommands_keep_place_closedRegion :
    ∃ final, exec step initial closedRegion = some final ∧
      final.imported = [⟨1, 1⟩, ⟨0, 2⟩, ⟨1, 3⟩] ∧
      ∃ readers, exec (Replay.step final.count final.streams) (fun _ => {}) closedSchedule =
          some readers ∧
        (readers 1).Started 3 ∧ 2 < (readers 0).completed := by
  have hrun : exec step initial closedRegion = some _ := rfl
  refine ⟨_, hrun, rfl, _, rfl, by decide, ?_⟩
  exact metacommands_keep_place (p := ⟨0, 2⟩) (q := ⟨1, 3⟩) hrun (by decide)
    (show exec _ _ closedSchedule = some _ from rfl) Nat.one_lt_two rfl rfl (by decide)
    (by decide) (by decide)

/-- A build is followed by a call, without the end of a resource initialization. -/
def openRegion : List Block :=
  [.application 7 [.call []], .metacommand true [.call []], .application 7 [.call []]]

/-- The call behind the build is executed while the build is not complete: thread 1 runs to
its end when thread 0 has passed its first barrier. -/
theorem call_outruns_metacommand :
    ∃ final, exec step initial openRegion = some final ∧
      final.imported = [⟨1, 1⟩, ⟨0, 2⟩, ⟨1, 2⟩] ∧
      ∃ readers, exec (Replay.step final.count final.streams) (fun _ => {})
          (List.replicate 4 0 ++ List.replicate 9 1) = some readers ∧
        (readers 1).Started 2 ∧ ¬ 2 < (readers 0).completed :=
  ⟨_, rfl, rfl, _, rfl, by decide, by decide⟩

end ImportOrder
end Lavatube
