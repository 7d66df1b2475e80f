import Lavatube.Lib.SuccessorGraph

/-!
# The deadlock diagnosis

The service of a replay answers `diagnose deadlock` from a snapshot of all threads.  A thread that
waits for a packet of another thread, which that thread has not completed, has an edge to it; a
cycle of such edges is a deadlock.  `replay_diagnostics_find_thread_cycle` walks along the edges from
every thread, with the place of every thread on the path in a vector.

* `Snapshot`, `waitEdgeActive`, `findThreadCycle`, `deadlockResponse` — the diagnosis.
* `WaitsFor` — who waits for whom, without the walk.
* `walk_eq_follow` — the vector of places is a test of the path.
* `deadlockResponse_exact` — the answer is exact for the snapshot.
-/

namespace Lavatube
namespace ReplayDiagnostics

open Relation SuccessorGraph

/-! ## The snapshot -/

/-- `cli_thread_state`. -/
inductive ThreadState where
  | notStarted
  | running
  | cliPaused
  | waitHandle
  | waitBarrier
  | waitFence
  | waitQueueIdle
  | waitDeviceIdle
  | terminated
deriving DecidableEq, Repr

/-- `UINT32_MAX`, for "no packet". -/
def noPacket : Nat := 2 ^ 32 - 1

/-- A `replay_thread_snapshot`. -/
structure Snapshot where
  thread : Nat := 0
  state : ThreadState := .notStarted
  completedPacket : Nat := 0
  waitThread : Int := -1
  waitPacket : Nat := noPacket
deriving DecidableEq, Repr

/-- `replay_diagnostics_is_thread_wait`. -/
def isThreadWait (state : ThreadState) : Bool :=
  state == .waitBarrier || state == .waitHandle

/-- `replay_diagnostics_is_gpu_wait`. -/
def isGpuWait (state : ThreadState) : Bool :=
  state == .waitFence || state == .waitQueueIdle || state == .waitDeviceIdle

/-- `replay_diagnostics_wait_edge_active`. -/
def waitEdgeActive (snapshots : List Snapshot) (snapshot : Snapshot) : Bool :=
  if !isThreadWait snapshot.state then false
  else if snapshot.waitThread < 0 then false
  else if snapshot.waitPacket = noPacket then false
  else
    match snapshots[snapshot.waitThread.toNat]? with
    | none => false
    | some target =>
        if snapshot.state = .waitBarrier then snapshot.waitPacket > target.completedPacket
        else snapshot.waitPacket ≥ target.completedPacket

/-- The edges; -1 is `none`. -/
def edges (snapshots : List Snapshot) : List (Option Nat) :=
  snapshots.map fun snapshot =>
    if waitEdgeActive snapshots snapshot then some snapshot.waitThread.toNat else none

/-- The loop over the path from one thread.  It ends since the path has no thread twice; the number
of rounds is not part of the source. -/
def walk (edges : List (Option Nat)) : Nat → List (Option Nat) → List Nat → Nat → List Nat
  | 0, _, _, _ => []
  | rounds + 1, positions, path, current =>
      match edges[current]?.join with
      | none => []
      | some later =>
          match positions[current]?.join with
          | some position => path.drop position
          | none =>
              walk edges rounds (positions.set current (some path.length)) (path ++ [current]) later

/-- The loop over the threads from which a path starts. -/
def firstCycle (edges : List (Option Nat)) (rounds : Nat) : List Nat → List Nat
  | [] => []
  | start :: starts =>
      match walk edges rounds (List.replicate edges.length none) [] start with
      | [] => firstCycle edges rounds starts
      | first :: rest => first :: rest

/-- `replay_diagnostics_find_thread_cycle`. -/
def findThreadCycle (snapshots : List Snapshot) : List Nat :=
  firstCycle (edges snapshots) (snapshots.length + 1) (List.range snapshots.length)

/-- What is answered: `NO_DEADLOCK`, or the rows of the two tables. -/
inductive Response where
  | noDeadlock
  | suspected (cycle : List Snapshot) (gpuWaits : List Snapshot)
deriving DecidableEq, Repr

/-- `replay_diagnostics_deadlock_response`. -/
def deadlockResponse (snapshots : List Snapshot) : Response :=
  let cycle := findThreadCycle snapshots
  let gpuWaits := snapshots.filter fun snapshot => isGpuWait snapshot.state
  if cycle.isEmpty && gpuWaits.isEmpty then .noDeadlock
  else .suspected (cycle.filterMap fun thread => snapshots[thread]?) gpuWaits

/-! ## Who waits for whom -/

/-- Thread `a` waits for a packet that thread `b` has not completed. -/
def WaitsFor (snapshots : List Snapshot) (a b : Nat) : Prop :=
  ∃ waiting target, snapshots[a]? = some waiting ∧ snapshots[b]? = some target ∧
    waiting.waitThread = b ∧ waiting.waitPacket ≠ noPacket ∧
      (waiting.state = .waitBarrier ∧ target.completedPacket < waiting.waitPacket ∨
        waiting.state = .waitHandle ∧ target.completedPacket ≤ waiting.waitPacket)

/-- The edge of a thread. -/
def successor (edges : List (Option Nat)) (thread : Nat) : Option Nat := edges[thread]?.join

section

variable {snapshots : List Snapshot} {a b : Nat}

theorem waitEdgeActive_iff {snapshot : Snapshot} : waitEdgeActive snapshots snapshot = true ↔
    ∃ target, snapshots[snapshot.waitThread.toNat]? = some target ∧ 0 ≤ snapshot.waitThread ∧
      snapshot.waitPacket ≠ noPacket ∧
      (snapshot.state = .waitBarrier ∧ target.completedPacket < snapshot.waitPacket ∨
        snapshot.state = .waitHandle ∧ target.completedPacket ≤ snapshot.waitPacket) := by
  unfold waitEdgeActive isThreadWait
  cases htarget : snapshots[snapshot.waitThread.toNat]? with
  | none => simp
  | some target =>
      cases hstate : snapshot.state <;> simp

theorem leads_successor_iff : Leads (successor (edges snapshots)) a b ↔ WaitsFor snapshots a b := by
  show (edges snapshots)[a]?.join = some b ↔ _
  unfold edges WaitsFor
  rw [List.getElem?_map]
  cases hwaiting : snapshots[a]? with
  | none => simp
  | some waiting =>
      simp only [Option.map_some, Option.join_some, Option.ite_none_right_eq_some,
        Option.some.injEq, waitEdgeActive_iff]
      constructor
      · rintro ⟨⟨target, htarget, hthread, hpacket, hwaits⟩, rfl⟩
        exact ⟨waiting, target, rfl, htarget, (Int.toNat_of_nonneg hthread).symm, hpacket, hwaits⟩
      · rintro ⟨_, target, rfl, htarget, hthread, hpacket, hwaits⟩
        have hb : waiting.waitThread.toNat = b := by
          rw [hthread]
          exact Int.toNat_natCast b
        exact ⟨⟨target, hb ▸ htarget, by omega, hpacket, hwaits⟩, hb⟩

/-! ## The walk -/

theorem drop_idxOf (path : List Nat) (thread : Nat) :
    path.drop (path.idxOf thread) = path.dropWhile fun passed => passed != thread := by
  induction path with
  | nil => rfl
  | cons passed path ih =>
      by_cases heq : passed = thread
      · subst heq
        simp
      · rw [List.idxOf_cons_ne _ heq, List.drop_succ_cons, ih, List.dropWhile_cons_of_pos]
        simpa using heq

/-- The vector has the place of every thread on the path. -/
def Positions (edges positions : List (Option Nat)) (path : List Nat) : Prop :=
  positions.length = edges.length ∧
    ∀ thread, positions[thread]?.join =
      if thread ∈ path then some (path.idxOf thread) else none

/-- One more thread on the path. -/
theorem Positions.push {edges positions : List (Option Nat)} {path : List Nat} {current : Nat}
    (h : Positions edges positions path) (hcurrent : current < edges.length)
    (hnew : current ∉ path) :
    Positions edges (positions.set current (some path.length)) (path ++ [current]) := by
  refine ⟨by rw [List.length_set, h.1], fun thread => ?_⟩
  by_cases heq : thread = current
  · subst heq
    rw [List.getElem?_set_self (h.1 ▸ hcurrent)]
    simp [List.idxOf_append_of_notMem hnew]
  · rw [List.getElem?_set_ne (Ne.symm heq), h.2 thread]
    by_cases hmem : thread ∈ path
    · simp [hmem, List.idxOf_append_of_mem hmem]
    · simp [hmem, heq]

/-- **The loop of the source is the walk.** -/
theorem walk_eq_follow {edges positions : List (Option Nat)} {path : List Nat}
    (h : Positions edges positions path) (rounds current : Nat) :
    walk edges rounds positions path current =
      follow (successor edges) rounds path current := by
  induction rounds generalizing positions path current with
  | zero => rfl
  | succ rounds ih =>
      rw [walk, follow]
      have hsuccessor : successor edges current = edges[current]?.join := rfl
      rw [hsuccessor]
      cases hedge : edges[current]?.join with
      | none => rfl
      | some later =>
          have hcurrent : current < edges.length := by
            by_contra hout
            rw [List.getElem?_eq_none (not_lt.mp hout)] at hedge
            cases hedge
          simp only [h.2 current]
          split_ifs with hmem
          · exact drop_idxOf path current
          · exact ih (h.push hcurrent hmem) later

theorem firstCycle_eq_findCycle (edges : List (Option Nat)) (rounds : Nat) (starts : List Nat) :
    firstCycle edges rounds starts = findCycle (successor edges) rounds starts := by
  have hstart : Positions edges (List.replicate edges.length none) [] := by
    refine ⟨List.length_replicate, fun thread => ?_⟩
    rw [List.getElem?_replicate]
    split_ifs <;> simp_all
  induction starts with
  | nil => rfl
  | cons start starts ih =>
      rw [firstCycle, findCycle, walk_eq_follow hstart, ih]
      cases follow (successor edges) rounds [] start <;> rfl

/-- A thread that waits is one of the snapshot, and so is the thread it waits for. -/
theorem WaitsFor.lt (h : WaitsFor snapshots a b) : a < snapshots.length ∧ b < snapshots.length := by
  obtain ⟨waiting, target, hwaiting, htarget, -⟩ := h
  exact ⟨(List.getElem?_eq_some_iff.mp hwaiting).1, (List.getElem?_eq_some_iff.mp htarget).1⟩

theorem leads_eq_waitsFor : Leads (successor (edges snapshots)) = WaitsFor snapshots := by
  ext a b
  exact leads_successor_iff

theorem findThreadCycle_isCycle (hfound : findThreadCycle snapshots ≠ []) :
    IsCycle (successor (edges snapshots)) (findThreadCycle snapshots) := by
  unfold findThreadCycle at hfound ⊢
  rw [firstCycle_eq_findCycle] at hfound ⊢
  exact findCycle_isCycle hfound

theorem findThreadCycle_ne_nil_iff :
    findThreadCycle snapshots ≠ [] ↔ ∃ t, TransGen (WaitsFor snapshots) t t := by
  have hnodes : ∀ a b, Leads (successor (edges snapshots)) a b →
      a ∈ List.range snapshots.length := by
    intro a b hleads
    exact List.mem_range.mpr (leads_successor_iff.mp hleads).lt.1
  unfold findThreadCycle
  rw [firstCycle_eq_findCycle, findCycle_ne_nil_iff hnodes (by simp)]
  show (∃ a ∈ List.range snapshots.length, ∃ b, _ ∧ TransGen _ b b) ↔ _
  rw [leads_eq_waitsFor]
  constructor
  · rintro ⟨-, -, b, -, hcycle⟩
    exact ⟨b, hcycle⟩
  · rintro ⟨t, hcycle⟩
    obtain ⟨u, hwaits, -⟩ := TransGen.head'_iff.mp hcycle
    exact ⟨t, List.mem_range.mpr hwaits.lt.1, t, ReflTransGen.refl, hcycle⟩

/-- **The answer is exact for the snapshot.**  The threads that are reported wait in a circle, each
once; none is reported only if no threads do; and `NO_DEADLOCK` is answered just if, in addition,
no thread waits for the device. -/
theorem deadlockResponse_exact (snapshots : List Snapshot) :
    (findThreadCycle snapshots ≠ [] → (findThreadCycle snapshots).Nodup ∧
      ∃ first ∈ (findThreadCycle snapshots).head?,
        List.IsChain (WaitsFor snapshots) (findThreadCycle snapshots ++ [first])) ∧
    (findThreadCycle snapshots = [] ↔ ∀ t, ¬ TransGen (WaitsFor snapshots) t t) ∧
    (deadlockResponse snapshots = .noDeadlock ↔
      (∀ t, ¬ TransGen (WaitsFor snapshots) t t) ∧
        ∀ snapshot ∈ snapshots, isGpuWait snapshot.state = false) := by
  have hnone : findThreadCycle snapshots = [] ↔ ∀ t, ¬ TransGen (WaitsFor snapshots) t t := by
    rw [← not_exists, ← findThreadCycle_ne_nil_iff, not_not]
  refine ⟨fun hfound => ?_, hnone, ?_⟩
  · obtain ⟨hnodup, first, hhead, hchain⟩ := findThreadCycle_isCycle hfound
    rw [leads_eq_waitsFor] at hchain
    exact ⟨hnodup, first, hhead, hchain⟩
  · rw [← hnone, deadlockResponse]
    simp only [Bool.and_eq_true, List.isEmpty_iff, ite_eq_left_iff, reduceCtorEq, imp_false,
      not_not, List.filter_eq_nil_iff, Bool.not_eq_true]

end

end ReplayDiagnostics
end Lavatube
