import Mathlib.Tactic
import Lavatube.Lib.Transition

/-!
# Pending command buffers on replay

The replayer keeps scratch buffers with a command buffer and destroys them when the command
buffer is recorded again, so it has to know whether the command buffer may still execute.
For this it notes the queue and the fence of the last submit with the command buffer, and
with every fence the command buffers that were last submitted with it.

* `Action`, `step` — the replayed calls that touch these notes, with what the driver returns.
* `State.running`, `State.hazards` — the executions the driver may still be busy with, and the
  command buffers that were cleaned up too early; the replayer knows neither.
* `State.settle` — what every wait amounts to: some command buffers are idle, some executions
  have ended.
* `Inv`, `Covered` — the notes agree with each other, and with the executions.
* `bookkeeping_iff` — when the notes are what they should be after every call.
* `no_reuse_while_running` — when no command buffer is cleaned up while it executes.
-/

namespace Lavatube
namespace PendingCommandbuffers

open Transition

/-! ## The notes -/

/-- What recording leaves in a command buffer for `replay_cleanup_commandbuffer_for_rerecord`
to take away. -/
structure Recorded where
  secondaryCommandbuffers : List Nat := []
  raytracingSbtUses : List Nat := []
  raytracingInstanceUses : List Nat := []
  boundRaytracingPipelineIndex : Option Nat := none
  scratchBuffers : List Nat := []
deriving DecidableEq, Repr

/-- `trackedcmdbuffer`.  `none` stands for `VK_NULL_HANDLE` and `CONTAINER_INVALID_INDEX`. -/
structure TrackedCmdbuffer where
  device : Nat := 0
  poolIndex : Option Nat := none
  /-- `VK_COMMAND_BUFFER_USAGE_SIMULTANEOUS_USE_BIT` of `replay_begin_flags`. -/
  simultaneousUse : Bool := false
  replayPending : Bool := false
  replaySubmitQueue : Option Nat := none
  replaySubmitFenceIndex : Option Nat := none
  recorded : Recorded := {}
deriving DecidableEq, Repr

/-- A successful submit of one command buffer. -/
structure Execution where
  commandbuffer : Nat
  queue : Nat
  fence : Option Nat
deriving DecidableEq, Repr

/-- The tracked objects.  `live` and `fenceLive` are `contains` of `index_to_VkCommandBuffer`
and `index_to_VkFence`, `fences` is `replay_pending_commandbuffers` of every fence. -/
@[ext] structure State where
  size : Nat
  queueDevice : Nat → Nat
  live : Nat → Bool := fun _ => false
  commandbuffers : Nat → TrackedCmdbuffer := fun _ => {}
  fenceLive : Nat → Bool := fun _ => false
  fences : Nat → List Nat := fun _ => []
  running : List Execution := []
  hazards : List Nat := []

/-- Before the first call of a trace with `size` command buffers. -/
def initial (size : Nat) (queueDevice : Nat → Nat) : State :=
  { size := size, queueDevice := queueDevice }

/-- One command buffer changed. -/
def State.setCommandbuffer (s : State) (c : Nat) (data : TrackedCmdbuffer) : State :=
  { s with commandbuffers := Function.update s.commandbuffers c data }

/-- The list of one fence changed. -/
def State.setFence (s : State) (f : Nat) (pending : List Nat) : State :=
  { s with fences := Function.update s.fences f pending }

/-- The driver is done with some executions. -/
def State.finish (s : State) (done : Execution → Bool) : State :=
  { s with running := s.running.filter fun e => !done e }

/-- A command buffer that is not pending. -/
def TrackedCmdbuffer.idle (data : TrackedCmdbuffer) : TrackedCmdbuffer :=
  { data with
    replayPending := false
    replaySubmitQueue := none
    replaySubmitFenceIndex := none }

/-- `replay_clear_pending_commandbuffer`. -/
def replayClearPendingCommandbuffer (s : State) (c : Nat) : State :=
  let data := s.commandbuffers c
  let removed :=
    match data.replaySubmitFenceIndex with
    | some f => if s.fenceLive f then s.setFence f ((s.fences f).filter (· ≠ c)) else s
    | none => s
  removed.setCommandbuffer c data.idle

/-- `replay_mark_pending_commandbuffer`. -/
def replayMarkPendingCommandbuffer (s : State) (c queue : Nat) (fence : Option Nat) : State :=
  let cleared := replayClearPendingCommandbuffer s c
  let marked := cleared.setCommandbuffer c
    { cleared.commandbuffers c with
      replayPending := true
      replaySubmitQueue := some queue
      replaySubmitFenceIndex := fence }
  match fence with
  | some f => marked.setFence f (marked.fences f ++ [c])
  | none => marked

/-- The body of the loop in `replay_clear_pending_fence`. -/
def clearIfOnFence (f : Nat) (s : State) (c : Nat) : State :=
  if s.live c ∧ (s.commandbuffers c).replaySubmitFenceIndex = some f then
    s.setCommandbuffer c (s.commandbuffers c).idle
  else
    s

/-- `replay_clear_pending_fence`. -/
def replayClearPendingFence (s : State) (f : Nat) : State :=
  if s.fenceLive f then
    ((s.fences f).foldl (clearIfOnFence f) s).setFence f []
  else
    s

/-- `replay_wait_for_pending_commandbuffer`.  A wait that fails aborts the replay, so here
the driver has waited. -/
def replayWaitForPendingCommandbuffer (s : State) (c : Nat) (allowSimultaneousUse : Bool) :
    State :=
  let data := s.commandbuffers c
  if !data.replayPending then s
  else if allowSimultaneousUse && data.simultaneousUse then s
  else
    match data.replaySubmitFenceIndex, data.replaySubmitQueue with
    | some f, queue =>
        if s.fenceLive f then
          replayClearPendingFence (s.finish fun e => e.fence = some f) f
        else
          match queue with
          | some q => replayClearPendingCommandbuffer (s.finish fun e => e.queue = q) c
          | none => replayClearPendingCommandbuffer s c
    | none, some q => replayClearPendingCommandbuffer (s.finish fun e => e.queue = q) c
    | none, none => replayClearPendingCommandbuffer s c

/-- What `replay_cleanup_commandbuffer_for_rerecord` does behind its wait; an execution that
still runs has its scratch buffers destroyed. -/
def destroyRecorded (s : State) (c : Nat) : State :=
  { s.setCommandbuffer c { s.commandbuffers c with recorded := {} } with
    hazards := if s.running.any (·.commandbuffer = c) then s.hazards ++ [c] else s.hazards }

/-- `replay_cleanup_commandbuffer_for_rerecord`. -/
def replayCleanupCommandbufferForRerecord (s : State) (c : Nat) : State :=
  destroyRecorded (replayWaitForPendingCommandbuffer s c false) c

/-! ## The calls -/

/-- `replay_pre_vkQueueSubmit` and `replay_pre_vkQueueSubmit2`. -/
def replayPreQueueSubmit (s : State) (submits : List (List Nat)) : State :=
  submits.flatten.foldl (fun s c => replayWaitForPendingCommandbuffer s c true) s

/-- The executions a successful submit starts. -/
def executions (submits : List (List Nat)) (queue : Nat) (fence : Option Nat) :
    List Execution :=
  submits.flatten.map fun c => ⟨c, queue, fence⟩

/-- `replay_callback_vkQueueSubmit` and `replay_callback_vkQueueSubmit2`, behind a submit
that was successful. -/
def replayCallbackQueueSubmit (s : State) (queue : Nat) (submits : List (List Nat))
    (fence : Option Nat) : State :=
  submits.flatten.foldl (fun s c => replayMarkPendingCommandbuffer s c queue fence) s

/-- The indices the loops over all command buffers visit; they start at 1. -/
def visited (s : State) : List Nat :=
  (List.range' 1 (s.size - 1)).filter s.live

/-- `replay_callback_vkQueueWaitIdle`. -/
def replayCallbackQueueWaitIdle (s : State) (queue : Nat) : State :=
  (visited s).foldl (fun s c =>
    let data := s.commandbuffers c
    if data.replayPending ∧ data.replaySubmitQueue = some queue then
      replayClearPendingCommandbuffer s c
    else
      s) s

/-- `replay_callback_vkDeviceWaitIdle`. -/
def replayCallbackDeviceWaitIdle (s : State) (device : Nat) : State :=
  (visited s).foldl (fun s c =>
    let data := s.commandbuffers c
    if data.replayPending ∧ data.device = device then
      replayClearPendingCommandbuffer s c
    else
      s) s

/-- The body of the loop over the command buffers of a pool. -/
def cleanupIfInPool (pool : Nat) (s : State) (c : Nat) : State :=
  if (s.commandbuffers c).poolIndex = some pool then
    replayCleanupCommandbufferForRerecord s c
  else
    s

/-- `replay_pre_vkResetCommandPool`, and `replay_pre_vkDestroyCommandPool`, which has the same
body. -/
def replayPreCommandPool (s : State) (pool : Nat) : State :=
  (visited s).foldl (cleanupIfInPool pool) s

/-- `replay_remap::index`, which has index 0 for a null handle. -/
def indexOf (handle : Option Nat) : Nat :=
  handle.getD 0

/-- `replay_pre_vkFreeCommandBuffers`. -/
def replayPreFreeCommandBuffers (s : State) (handles : List (Option Nat)) : State :=
  (handles.map indexOf).foldl replayCleanupCommandbufferForRerecord s

/-- `unset` of `index_to_VkCommandBuffer`, for the handles that are not null. -/
def unsetCommandbuffers (s : State) (handles : List (Option Nat)) : State :=
  { s with live := fun c => s.live c && !handles.contains (some c) }

/-- A replayed call with what the driver returns for it (`success` is `VK_SUCCESS`).  In
`waitForFences`, `signalled` are the fences for which `vkGetFenceStatus` is successful. -/
inductive Action where
  | createFence (fence : Nat)
  | allocateCommandBuffer (c pool device : Nat)
  | record (c : Nat) (recorded : Recorded)
  | queueSubmit (queue : Nat) (submits : List (List Nat)) (fence : Option Nat)
      (success : Bool)
  | waitForFences (fences : List Nat) (waitAll success : Bool) (signalled : List Nat)
  | getFenceStatus (fence : Nat) (success : Bool)
  | resetFences (fences : List Nat) (success : Bool)
  | queueWaitIdle (queue : Nat) (success : Bool)
  | deviceWaitIdle (device : Nat) (success : Bool)
  | beginCommandBuffer (c : Nat) (simultaneousUse : Bool)
  | resetCommandBuffer (c : Nat)
  | freeCommandBuffers (handles : List (Option Nat))
  | resetCommandPool (pool : Nat)
  | destroyCommandPool (pool : Nat)
deriving DecidableEq, Repr

/-- A fence that the driver reports as signalled, and `replay_clear_pending_fence` of it. -/
def signal (s : State) (f : Nat) : State :=
  replayClearPendingFence (s.finish fun e => e.fence = some f) f

/-- One replayed call.  Handles are those of live objects, a command buffer is submitted to a
queue of its own device, and an index is below the size of its table. -/
def step (s : State) : Action → Option State
  | .createFence f =>
      if s.fenceLive f then none
      else some { s with fenceLive := Function.update s.fenceLive f true }
  | .allocateCommandBuffer c pool device =>
      if c < s.size ∧ s.live c = false then
        some { s.setCommandbuffer c
            { s.commandbuffers c with poolIndex := some pool, device := device } with
          live := Function.update s.live c true }
      else none
  | .record c recorded =>
      if s.live c then
        some (s.setCommandbuffer c { s.commandbuffers c with recorded := recorded })
      else none
  | .queueSubmit queue submits fence success =>
      if (∀ c ∈ submits.flatten, s.live c ∧ (s.commandbuffers c).device = s.queueDevice queue) ∧
          fence.all s.fenceLive then
        let waited := replayPreQueueSubmit s submits
        if success then
          some (replayCallbackQueueSubmit
            { waited with running := waited.running ++ executions submits queue fence }
            queue submits fence)
        else some waited
      else none
  | .waitForFences fences waitAll success signalled =>
      if fences.all s.fenceLive then
        if waitAll then some (if success then fences.foldl signal s else s)
        else some ((fences.filter signalled.contains).foldl signal s)
      else none
  | .getFenceStatus f success =>
      if s.fenceLive f then some (if success then signal s f else s) else none
  | .resetFences fences success =>
      if fences.all s.fenceLive then
        some (if success then fences.foldl replayClearPendingFence s else s)
      else none
  | .queueWaitIdle queue success =>
      some (if success then
        replayCallbackQueueWaitIdle (s.finish fun e => e.queue = queue) queue
      else s)
  | .deviceWaitIdle device success =>
      some (if success then
        replayCallbackDeviceWaitIdle (s.finish fun e => s.queueDevice e.queue = device) device
      else s)
  | .beginCommandBuffer c simultaneousUse =>
      if s.live c then
        let cleaned := replayCleanupCommandbufferForRerecord s c
        some (cleaned.setCommandbuffer c
          { cleaned.commandbuffers c with simultaneousUse := simultaneousUse })
      else none
  | .resetCommandBuffer c =>
      if s.live c then some (replayCleanupCommandbufferForRerecord s c) else none
  | .freeCommandBuffers handles =>
      if (∀ c ∈ handles.map indexOf, c < s.size) ∧ ∀ c ∈ handles.filterMap id, s.live c then
        some (unsetCommandbuffers (replayPreFreeCommandBuffers s handles) handles)
      else none
  | .resetCommandPool pool => some (replayPreCommandPool s pool)
  | .destroyCommandPool pool => some (replayPreCommandPool s pool)

/-! ## What a call does -/

/-- The next state of every call, with what it has tested; `done` are the fences that are found
signalled. -/
inductive Called (s : State) : Action → State → Prop
  | createFence {f : Nat} :
      Called s (.createFence f) { s with fenceLive := Function.update s.fenceLive f true }
  | allocateCommandBuffer {c pool device : Nat} (hlt : c < s.size) (hfree : s.live c = false) :
      Called s (.allocateCommandBuffer c pool device)
        { s.setCommandbuffer c
            { s.commandbuffers c with poolIndex := some pool, device := device } with
          live := Function.update s.live c true }
  | record {c : Nat} {recorded : Recorded} :
      Called s (.record c recorded)
        (s.setCommandbuffer c { s.commandbuffers c with recorded := recorded })
  | submitted {queue : Nat} {submits : List (List Nat)} {fence : Option Nat}
      (hlive : ∀ c ∈ submits.flatten,
        s.live c = true ∧ (s.commandbuffers c).device = s.queueDevice queue)
      (hfence : fence.all s.fenceLive = true) :
      Called s (.queueSubmit queue submits fence true)
        (replayCallbackQueueSubmit
          { replayPreQueueSubmit s submits with
            running := (replayPreQueueSubmit s submits).running ++
              executions submits queue fence }
          queue submits fence)
  | notSubmitted {queue : Nat} {submits : List (List Nat)} {fence : Option Nat} :
      Called s (.queueSubmit queue submits fence false) (replayPreQueueSubmit s submits)
  | waitForFences {fences signalled done : List Nat} {waitAll success : Bool}
      (hlive : ∀ f ∈ done, s.fenceLive f = true) :
      Called s (.waitForFences fences waitAll success signalled) (done.foldl signal s)
  | fenceSignalled {f : Nat} (hlive : s.fenceLive f = true) :
      Called s (.getFenceStatus f true) (signal s f)
  | fenceNotSignalled {f : Nat} : Called s (.getFenceStatus f false) s
  | resetFences {fences : List Nat} (hlive : ∀ f ∈ fences, s.fenceLive f = true) :
      Called s (.resetFences fences true) (fences.foldl replayClearPendingFence s)
  | fencesNotReset {fences : List Nat} : Called s (.resetFences fences false) s
  | queueWaitIdle {queue : Nat} :
      Called s (.queueWaitIdle queue true)
        (replayCallbackQueueWaitIdle (s.finish fun e => e.queue = queue) queue)
  | queueNotIdle {queue : Nat} : Called s (.queueWaitIdle queue false) s
  | deviceWaitIdle {device : Nat} :
      Called s (.deviceWaitIdle device true)
        (replayCallbackDeviceWaitIdle (s.finish fun e => s.queueDevice e.queue = device) device)
  | deviceNotIdle {device : Nat} : Called s (.deviceWaitIdle device false) s
  | beginCommandBuffer {c : Nat} {simultaneousUse : Bool} :
      Called s (.beginCommandBuffer c simultaneousUse)
        ((replayCleanupCommandbufferForRerecord s c).setCommandbuffer c
          { (replayCleanupCommandbufferForRerecord s c).commandbuffers c with
            simultaneousUse := simultaneousUse })
  | resetCommandBuffer {c : Nat} :
      Called s (.resetCommandBuffer c) (replayCleanupCommandbufferForRerecord s c)
  | freeCommandBuffers {handles : List (Option Nat)} :
      Called s (.freeCommandBuffers handles)
        (unsetCommandbuffers (replayPreFreeCommandBuffers s handles) handles)
  | resetCommandPool {pool : Nat} :
      Called s (.resetCommandPool pool) (replayPreCommandPool s pool)
  | destroyCommandPool {pool : Nat} :
      Called s (.destroyCommandPool pool) (replayPreCommandPool s pool)

/-- **What a call does**, said once. -/
theorem step_called {s next : State} {a : Action} (hstep : step s a = some next) :
    Called s a next := by
  cases a with
  | createFence f =>
      simp only [step, Option.ite_none_left_eq_some, Option.some.injEq] at hstep
      obtain ⟨-, rfl⟩ := hstep
      exact .createFence
  | allocateCommandBuffer c pool device =>
      simp only [step, Option.ite_none_right_eq_some, Option.some.injEq] at hstep
      obtain ⟨⟨hlt, hfree⟩, rfl⟩ := hstep
      exact .allocateCommandBuffer hlt hfree
  | record c recorded =>
      simp only [step, Option.ite_none_right_eq_some, Option.some.injEq] at hstep
      obtain ⟨-, rfl⟩ := hstep
      exact .record
  | queueSubmit queue submits fence success =>
      simp only [step, Option.ite_none_right_eq_some] at hstep
      obtain ⟨⟨hlive, hfence⟩, hstep⟩ := hstep
      cases success with
      | false =>
          simp only [Bool.false_eq_true, if_false, Option.some.injEq] at hstep
          exact hstep ▸ .notSubmitted
      | true =>
          simp only [if_true, Option.some.injEq] at hstep
          exact hstep ▸ .submitted hlive hfence
  | waitForFences fences waitAll success signalled =>
      simp only [step, Option.ite_none_right_eq_some] at hstep
      obtain ⟨hlive, hstep⟩ := hstep
      have hlive : ∀ f ∈ fences, s.fenceLive f = true := by simpa using hlive
      cases waitAll with
      | true =>
          cases success with
          | true =>
              simp only [if_true, Option.some.injEq] at hstep
              exact hstep ▸ .waitForFences hlive
          | false =>
              -- a timeout: no fence is known to be signalled
              simp only [if_true, Bool.false_eq_true, if_false, Option.some.injEq] at hstep
              have hnone : ∀ f ∈ ([] : List Nat), s.fenceLive f = true := nofun
              exact hstep ▸ .waitForFences hnone
      | false =>
          simp only [Bool.false_eq_true, if_false, Option.some.injEq] at hstep
          exact hstep ▸ .waitForFences fun f hf => hlive f (List.mem_of_mem_filter hf)
  | getFenceStatus f success =>
      simp only [step, Option.ite_none_right_eq_some, Option.some.injEq] at hstep
      obtain ⟨hlive, rfl⟩ := hstep
      cases success with
      | true => exact .fenceSignalled hlive
      | false => exact .fenceNotSignalled
  | resetFences fences success =>
      simp only [step, Option.ite_none_right_eq_some, Option.some.injEq] at hstep
      obtain ⟨hlive, rfl⟩ := hstep
      cases success with
      | true => exact .resetFences (by simpa using hlive)
      | false => exact .fencesNotReset
  | queueWaitIdle queue success =>
      simp only [step, Option.some.injEq] at hstep
      subst hstep
      cases success with
      | true => exact .queueWaitIdle
      | false => exact .queueNotIdle
  | deviceWaitIdle device success =>
      simp only [step, Option.some.injEq] at hstep
      subst hstep
      cases success with
      | true => exact .deviceWaitIdle
      | false => exact .deviceNotIdle
  | beginCommandBuffer c simultaneousUse =>
      simp only [step, Option.ite_none_right_eq_some, Option.some.injEq] at hstep
      obtain ⟨-, rfl⟩ := hstep
      exact .beginCommandBuffer
  | resetCommandBuffer c =>
      simp only [step, Option.ite_none_right_eq_some, Option.some.injEq] at hstep
      obtain ⟨-, rfl⟩ := hstep
      exact .resetCommandBuffer
  | freeCommandBuffers handles =>
      simp only [step, Option.ite_none_right_eq_some, Option.some.injEq] at hstep
      obtain ⟨-, rfl⟩ := hstep
      exact .freeCommandBuffers
  | resetCommandPool pool =>
      simp only [step, Option.some.injEq] at hstep
      exact hstep ▸ .resetCommandPool
  | destroyCommandPool pool =>
      simp only [step, Option.some.injEq] at hstep
      exact hstep ▸ .destroyCommandPool

/-! ## What a wait amounts to -/

/-- The command buffers of `P` are idle, and the executions of `done` have ended. -/
def State.settle (s : State) (P : Nat → Bool) (done : Execution → Bool) : State :=
  { s with
    commandbuffers := fun c => if P c then (s.commandbuffers c).idle else s.commandbuffers c
    fences := fun f => (s.fences f).filter fun c => !P c
    running := s.running.filter fun e => !done e }

/-- The notes agree with each other. -/
structure Inv (s : State) : Prop where
  listed : ∀ c f, c ∈ s.fences f ↔ (s.commandbuffers c).replaySubmitFenceIndex = some f
  nodup : ∀ f, (s.fences f).Nodup
  pending_of_fence : ∀ c f, (s.commandbuffers c).replaySubmitFenceIndex = some f →
    (s.commandbuffers c).replayPending = true
  pending_iff : ∀ c, (s.commandbuffers c).replayPending = true ↔
    (s.commandbuffers c).replaySubmitQueue ≠ none
  live_of_pending : ∀ c, (s.commandbuffers c).replayPending = true → s.live c = true
  fenceLive : ∀ c f, (s.commandbuffers c).replaySubmitFenceIndex = some f →
    s.fenceLive f = true
  live_lt : ∀ c, s.live c = true → c < s.size

variable {s next : State} {a : Action} {c f q : Nat}

theorem inv_initial (size : Nat) (queueDevice : Nat → Nat) :
    Inv (initial size queueDevice) := by
  constructor <;> simp [initial]

/-- Some command buffers go idle. -/
theorem Inv.settle (hinv : Inv s) (P : Nat → Bool) (done : Execution → Bool) :
    Inv (s.settle P done) := by
  constructor
  · intro c f
    cases hP : P c with
    | true => simp [State.settle, TrackedCmdbuffer.idle, hP]
    | false => simpa [State.settle, hP] using hinv.listed c f
  · intro f
    exact (hinv.nodup f).filter _
  · intro c f hfence
    cases hP : P c with
    | true => simp [State.settle, TrackedCmdbuffer.idle, hP] at hfence
    | false => simpa [State.settle, hP] using
        hinv.pending_of_fence c f (by simpa [State.settle, hP] using hfence)
  · intro c
    cases hP : P c with
    | true => simp [State.settle, TrackedCmdbuffer.idle, hP]
    | false => simpa [State.settle, hP] using hinv.pending_iff c
  · intro c hpending
    cases hP : P c with
    | true => simp [State.settle, TrackedCmdbuffer.idle, hP] at hpending
    | false => exact hinv.live_of_pending c (by simpa [State.settle, hP] using hpending)
  · intro c f hfence
    cases hP : P c with
    | true => simp [State.settle, TrackedCmdbuffer.idle, hP] at hfence
    | false => exact hinv.fenceLive c f (by simpa [State.settle, hP] using hfence)
  · exact hinv.live_lt

theorem State.settle_settle (P Q : Nat → Bool) (d e : Execution → Bool) :
    (s.settle P d).settle Q e = s.settle (fun c => P c || Q c) (fun x => d x || e x) := by
  ext1
  case commandbuffers =>
    funext c
    cases hP : P c <;> cases hQ : Q c <;> simp [State.settle, TrackedCmdbuffer.idle, hP, hQ]
  case fences =>
    funext f
    simp [State.settle, List.filter_filter, Bool.and_comm]
  case running => simp [State.settle, List.filter_filter, Bool.and_comm]
  all_goals rfl

theorem State.finish_eq_settle (done : Execution → Bool) :
    s.finish done = s.settle (fun _ => false) done := by
  simp [State.finish, State.settle]

theorem Inv.finish (hinv : Inv s) (done : Execution → Bool) : Inv (s.finish done) := by
  rw [State.finish_eq_settle]
  exact hinv.settle _ _

/-- Clearing one command buffer. -/
theorem replayClearPendingCommandbuffer_eq (hinv : Inv s) (c : Nat) :
    replayClearPendingCommandbuffer s c = s.settle (fun i => i = c) fun _ => false := by
  -- it is in no list but that of its own fence
  have hfence : ∀ f, (s.commandbuffers c).replaySubmitFenceIndex ≠ some f →
      (s.fences f).filter (fun i => !decide (i = c)) = s.fences f := by
    intro f hne
    rw [List.filter_eq_self]
    intro i hi
    have : i ≠ c := by
      rintro rfl
      exact hne ((hinv.listed i f).mp hi)
    simpa using this
  cases hindex : (s.commandbuffers c).replaySubmitFenceIndex with
  | none =>
      simp only [replayClearPendingCommandbuffer, hindex]
      ext1
      case commandbuffers =>
        funext i
        by_cases hi : i = c
        · subst hi
          simp [State.settle, State.setCommandbuffer]
        · simp [State.settle, State.setCommandbuffer, hi]
      case fences =>
        funext f
        exact (hfence f (by simp [hindex])).symm
      all_goals simp [State.settle, State.setCommandbuffer]
  | some g =>
      simp only [replayClearPendingCommandbuffer, hindex, hinv.fenceLive c g hindex, if_true]
      ext1
      case commandbuffers =>
        funext i
        by_cases hi : i = c
        · subst hi
          simp [State.settle, State.setCommandbuffer]
        · simp [State.settle, State.setCommandbuffer, State.setFence, hi]
      case fences =>
        funext f
        by_cases hf : f = g
        · subst hf
          simp [State.settle, State.setCommandbuffer, State.setFence]
        · have hne : (s.commandbuffers c).replaySubmitFenceIndex ≠ some f := by
            rw [hindex]
            simpa using fun h => hf h.symm
          simpa [State.settle, State.setCommandbuffer, State.setFence, hf] using
            (hfence f hne).symm
      all_goals simp [State.settle, State.setCommandbuffer, State.setFence]

/-- The loop of `replay_clear_pending_fence`: the listed command buffers that were last
submitted with the fence go idle, and nothing else changes. -/
theorem foldl_clearIfOnFence (l : List Nat) (f : Nat) (s : State) :
    l.foldl (clearIfOnFence f) s = { s with
      commandbuffers := fun c =>
        if c ∈ l ∧ s.live c ∧ (s.commandbuffers c).replaySubmitFenceIndex = some f then
          (s.commandbuffers c).idle
        else s.commandbuffers c } := by
  induction l generalizing s with
  | nil => simp
  | cons i l ih =>
      rw [List.foldl_cons, ih]
      ext1
      case commandbuffers =>
        funext c
        by_cases hi : s.live i ∧ (s.commandbuffers i).replaySubmitFenceIndex = some f
        · by_cases hc : c = i
          · subst hc
            simp [clearIfOnFence, hi, State.setCommandbuffer, TrackedCmdbuffer.idle]
          · simp [clearIfOnFence, hi, State.setCommandbuffer, hc]
        · by_cases hc : c = i
          · subst hc
            simp [clearIfOnFence, hi]
          · simp [clearIfOnFence, hi, hc]
      all_goals
        by_cases hi : s.live i ∧ (s.commandbuffers i).replaySubmitFenceIndex = some f
        · simp [clearIfOnFence, hi, State.setCommandbuffer]
        · simp [clearIfOnFence, hi]

/-- Clearing the command buffers of one fence. -/
theorem replayClearPendingFence_eq (hinv : Inv s) (hlive : s.fenceLive f = true) :
    replayClearPendingFence s f =
      s.settle (fun c => (s.commandbuffers c).replaySubmitFenceIndex = some f)
        fun _ => false := by
  rw [replayClearPendingFence, if_pos hlive, foldl_clearIfOnFence]
  ext1
  case commandbuffers =>
    funext c
    by_cases hc : (s.commandbuffers c).replaySubmitFenceIndex = some f
    · have hmem := (hinv.listed c f).mpr hc
      have hpending := hinv.live_of_pending c (hinv.pending_of_fence c f hc)
      simp [State.settle, State.setFence, hc, hmem, hpending]
    · simp [State.settle, State.setFence, hc]
  case fences =>
    funext g
    by_cases hg : g = f
    · subst hg
      simp [State.settle, State.setFence, ← hinv.listed]
    · have hkeep : (s.fences g).filter
          (fun c => !decide ((s.commandbuffers c).replaySubmitFenceIndex = some f)) =
          s.fences g := by
        rw [List.filter_eq_self]
        intro c hc
        simpa [(hinv.listed c g).mp hc] using hg
      simp [State.settle, State.setFence, hg, hkeep]
  all_goals simp [State.settle, State.setFence]

/-- A fence that is signalled ends its executions, and its command buffers are idle. -/
theorem signal_eq (hinv : Inv s) (hlive : s.fenceLive f = true) :
    signal s f =
      s.settle (fun c => (s.commandbuffers c).replaySubmitFenceIndex = some f)
        fun e => e.fence = some f := by
  rw [signal, replayClearPendingFence_eq (hinv.finish _) hlive, State.finish_eq_settle,
    State.settle_settle]
  simp [State.settle]

/-- An idle queue ends its executions; here one command buffer is found to be idle. -/
theorem clear_finish_eq (hinv : Inv s) (done : Execution → Bool) (c : Nat) :
    replayClearPendingCommandbuffer (s.finish done) c = s.settle (fun i => i = c) done := by
  rw [replayClearPendingCommandbuffer_eq (hinv.finish _), State.finish_eq_settle,
    State.settle_settle]
  simp

/-- What `replay_wait_for_pending_commandbuffer` can do. -/
theorem replayWaitForPendingCommandbuffer_cases (hinv : Inv s) (c : Nat) (allow : Bool) :
    (replayWaitForPendingCommandbuffer s c allow = s ∧
      ((s.commandbuffers c).replayPending = false ∨
        allow = true ∧ (s.commandbuffers c).simultaneousUse = true)) ∨
    (∃ f, (s.commandbuffers c).replaySubmitFenceIndex = some f ∧
      replayWaitForPendingCommandbuffer s c allow =
        s.settle (fun i => (s.commandbuffers i).replaySubmitFenceIndex = some f)
          fun e => e.fence = some f) ∨
    ∃ q, (s.commandbuffers c).replaySubmitFenceIndex = none ∧
      (s.commandbuffers c).replaySubmitQueue = some q ∧
      replayWaitForPendingCommandbuffer s c allow =
        s.settle (fun i => i = c) fun e => e.queue = q := by
  by_cases hpending : (s.commandbuffers c).replayPending = true
  · by_cases hsimultaneous : (allow && (s.commandbuffers c).simultaneousUse) = true
    · refine Or.inl ⟨?_, Or.inr (by simpa using hsimultaneous)⟩
      simp [replayWaitForPendingCommandbuffer, hpending, hsimultaneous]
    · right
      cases hfence : (s.commandbuffers c).replaySubmitFenceIndex with
      -- the fence is waited for, and all that were submitted with it go idle
      | some f =>
          have hlive := hinv.fenceLive c f hfence
          refine Or.inl ⟨f, rfl, ?_⟩
          rw [← signal_eq hinv hlive]
          simp only [replayWaitForPendingCommandbuffer, hpending, hsimultaneous, hfence,
            hlive, signal]
          simp
      -- without a fence the whole queue is waited for, and only this one goes idle
      | none =>
          obtain ⟨q, hqueue⟩ := Option.ne_none_iff_exists'.mp ((hinv.pending_iff c).mp hpending)
          refine Or.inr ⟨q, rfl, hqueue, ?_⟩
          rw [← clear_finish_eq hinv]
          simp only [replayWaitForPendingCommandbuffer, hpending, hsimultaneous, hfence,
            hqueue]
          simp
  · refine Or.inl ⟨?_, Or.inl (by simpa using hpending)⟩
    simp [replayWaitForPendingCommandbuffer, hpending]

/-- A loop over command buffers that clears those that meet `R`. -/
theorem foldl_clear_eq {R : TrackedCmdbuffer → Prop} [DecidablePred R] (l : List Nat)
    (hinv : Inv s) :
    l.foldl (fun s c =>
        if R (s.commandbuffers c) then replayClearPendingCommandbuffer s c else s) s =
      s.settle (fun c => c ∈ l ∧ R (s.commandbuffers c)) fun _ => false := by
  induction l generalizing s with
  | nil => simp [State.settle]
  | cons i l ih =>
      rw [List.foldl_cons]
      by_cases hi : R (s.commandbuffers i)
      · rw [if_pos hi, replayClearPendingCommandbuffer_eq hinv, ih (hinv.settle _ _),
          State.settle_settle]
        congr 1
        funext c
        by_cases hc : c = i
        · subst hc
          simp [hi]
        · simp [State.settle, hc]
      · rw [if_neg hi, ih hinv]
        congr 1
        funext c
        by_cases hc : c = i
        · subst hc
          simp [hi]
        · simp [hc]

theorem replayCallbackQueueWaitIdle_eq (hinv : Inv s) (q : Nat) :
    replayCallbackQueueWaitIdle s q =
      s.settle (fun c => c ∈ visited s ∧ (s.commandbuffers c).replayPending ∧
        (s.commandbuffers c).replaySubmitQueue = some q) fun _ => false :=
  foldl_clear_eq (R := fun data => data.replayPending ∧ data.replaySubmitQueue = some q)
    (visited s) hinv

theorem replayCallbackDeviceWaitIdle_eq (hinv : Inv s) (device : Nat) :
    replayCallbackDeviceWaitIdle s device =
      s.settle (fun c => c ∈ visited s ∧ (s.commandbuffers c).replayPending ∧
        (s.commandbuffers c).device = device) fun _ => false :=
  foldl_clear_eq (R := fun data => data.replayPending ∧ data.device = device)
    (visited s) hinv

/-- The loops visit every live command buffer but the one with index 0. -/
theorem mem_visited (hinv : Inv s) : c ∈ visited s ↔ s.live c = true ∧ c ≠ 0 := by
  simp only [visited, List.mem_filter, List.mem_range'_1]
  constructor
  · rintro ⟨hrange, hlive⟩
    exact ⟨hlive, by omega⟩
  · rintro ⟨hlive, hne⟩
    have := hinv.live_lt c hlive
    exact ⟨by omega, hlive⟩

/-! ## The notes agree with each other -/

/-- The notes of a command buffer: whether it is pending, and its last queue and fence. -/
def TrackedCmdbuffer.notes (data : TrackedCmdbuffer) : Bool × Option Nat × Option Nat :=
  (data.replayPending, data.replaySubmitQueue, data.replaySubmitFenceIndex)

/-- `Inv` speaks about the notes only. -/
theorem Inv.congr {t : State} (hinv : Inv s)
    (hnotes : ∀ c, (t.commandbuffers c).notes = (s.commandbuffers c).notes)
    (hfences : t.fences = s.fences)
    (hlive : ∀ c, (s.commandbuffers c).replayPending = true → s.live c = true → t.live c = true)
    (hlt : ∀ c, t.live c = true → c < t.size)
    (hfenceLive : ∀ f, s.fenceLive f = true → t.fenceLive f = true) : Inv t := by
  have hpending c : (t.commandbuffers c).replayPending = (s.commandbuffers c).replayPending :=
    congrArg Prod.fst (hnotes c)
  have hqueue c :
      (t.commandbuffers c).replaySubmitQueue = (s.commandbuffers c).replaySubmitQueue :=
    congrArg (fun notes => notes.2.1) (hnotes c)
  have hfence c : (t.commandbuffers c).replaySubmitFenceIndex =
      (s.commandbuffers c).replaySubmitFenceIndex :=
    congrArg (fun notes => notes.2.2) (hnotes c)
  constructor
  · intro c f
    rw [hfences, hfence]
    exact hinv.listed c f
  · rw [hfences]
    exact hinv.nodup
  · intro c f h
    rw [hfence] at h
    rw [hpending]
    exact hinv.pending_of_fence c f h
  · intro c
    rw [hpending, hqueue]
    exact hinv.pending_iff c
  · intro c h
    rw [hpending] at h
    exact hlive c h (hinv.live_of_pending c h)
  · intro c f h
    rw [hfence] at h
    exact hfenceLive f (hinv.fenceLive c f h)
  · exact hlt

/-- A command buffer changed, but not its notes. -/
theorem Inv.setCommandbuffer (hinv : Inv s) (c : Nat) (data : TrackedCmdbuffer)
    (hnotes : data.notes = (s.commandbuffers c).notes) :
    Inv (s.setCommandbuffer c data) := by
  refine hinv.congr (fun i => ?_) rfl (fun _ _ h => h) hinv.live_lt (fun _ h => h)
  by_cases hi : i = c
  · subst hi
    simpa [State.setCommandbuffer] using hnotes
  · simp [State.setCommandbuffer, hi]

theorem Inv.destroyRecorded (hinv : Inv s) (c : Nat) : Inv (destroyRecorded s c) :=
  (hinv.setCommandbuffer c { s.commandbuffers c with recorded := {} }
    rfl).congr (fun _ => rfl) rfl (fun _ _ h => h) hinv.live_lt (fun _ h => h)

theorem Inv.wait (hinv : Inv s) (c : Nat) (allow : Bool) :
    Inv (replayWaitForPendingCommandbuffer s c allow) := by
  obtain ⟨h, -⟩ | ⟨f, -, h⟩ | ⟨q, -, -, h⟩ :=
    replayWaitForPendingCommandbuffer_cases hinv c allow
  · rwa [h]
  · rw [h]
    exact hinv.settle _ _
  · rw [h]
    exact hinv.settle _ _

theorem Inv.cleanup (hinv : Inv s) (c : Nat) :
    Inv (replayCleanupCommandbufferForRerecord s c) :=
  (hinv.wait c false).destroyRecorded c

/-- A marked command buffer is in the list of its fence, behind the others. -/
theorem replayMarkPendingCommandbuffer_eq (hinv : Inv s) (c queue : Nat)
    (fence : Option Nat) :
    replayMarkPendingCommandbuffer s c queue fence = { s with
      commandbuffers := Function.update s.commandbuffers c
        { s.commandbuffers c with
          replayPending := true
          replaySubmitQueue := some queue
          replaySubmitFenceIndex := fence }
      fences := fun f =>
        (s.fences f).filter (fun i => !decide (i = c)) ++
          if fence = some f then [c] else [] } := by
  simp only [replayMarkPendingCommandbuffer, replayClearPendingCommandbuffer_eq hinv]
  cases fence with
  | none =>
      ext1
      case commandbuffers =>
        funext i
        by_cases hi : i = c
        · subst hi
          simp [State.setCommandbuffer, State.settle, TrackedCmdbuffer.idle]
        · simp [State.setCommandbuffer, State.settle, hi]
      all_goals simp [State.setCommandbuffer, State.settle]
  | some g =>
      ext1
      case commandbuffers =>
        funext i
        by_cases hi : i = c
        · subst hi
          simp [State.setCommandbuffer, State.setFence, State.settle, TrackedCmdbuffer.idle]
        · simp [State.setCommandbuffer, State.setFence, State.settle, hi]
      case fences =>
        funext f
        by_cases hf : f = g
        · subst hf
          simp [State.setCommandbuffer, State.setFence, State.settle]
        · simp [State.setCommandbuffer, State.setFence, State.settle, hf, Ne.symm hf]
      all_goals simp [State.setCommandbuffer, State.setFence, State.settle]

/-- A submit with one command buffer. -/
theorem Inv.mark (hinv : Inv s) (hlive : s.live c = true) (queue : Nat) {fence : Option Nat}
    (hfence : fence.all s.fenceLive = true) :
    Inv (replayMarkPendingCommandbuffer s c queue fence) := by
  rw [replayMarkPendingCommandbuffer_eq hinv]
  constructor
  · intro i f
    by_cases hi : i = c
    · subst hi
      by_cases hf : fence = some f <;> simp [hf]
    · by_cases hf : fence = some f <;> simpa [hf, hi] using hinv.listed i f
  · intro f
    have hnodup := (hinv.nodup f).filter fun i => !decide (i = c)
    by_cases hf : fence = some f
    · simpa [hf, List.nodup_append] using hnodup
    · simpa [hf] using hnodup
  · intro i f
    by_cases hi : i = c
    · simp [hi]
    · simpa [hi] using hinv.pending_of_fence i f
  · intro i
    by_cases hi : i = c
    · simp [hi]
    · simpa [hi] using hinv.pending_iff i
  · intro i
    by_cases hi : i = c
    · simp [hi, hlive]
    · simpa [hi] using hinv.live_of_pending i
  · intro i f
    by_cases hi : i = c
    · simp only [hi, Function.update_self]
      rintro rfl
      simpa using hfence
    · simpa [hi] using hinv.fenceLive i f
  · exact hinv.live_lt

/-- All command buffers of a submit, one after the other. -/
theorem Inv.markAll (hinv : Inv s) {l : List Nat} (hlive : ∀ c ∈ l, s.live c = true)
    (queue : Nat) {fence : Option Nat} (hfence : fence.all s.fenceLive = true) :
    Inv (l.foldl (fun s c => replayMarkPendingCommandbuffer s c queue fence) s) := by
  induction l generalizing s with
  | nil => exact hinv
  | cons c l ih =>
      have hmark := hinv.mark (hlive c (List.mem_cons_self ..)) queue hfence
      rw [List.foldl_cons]
      apply ih hmark
      · intro i hi
        rw [replayMarkPendingCommandbuffer_eq hinv]
        exact hlive i (List.mem_cons_of_mem _ hi)
      · rw [replayMarkPendingCommandbuffer_eq hinv]
        exact hfence

/-- What waits and clean-ups leave as it is. -/
structure Waited (s t : State) : Prop where
  size : t.size = s.size
  queueDevice : t.queueDevice = s.queueDevice
  live : t.live = s.live
  fenceLive : t.fenceLive = s.fenceLive
  poolIndex : ∀ c, (t.commandbuffers c).poolIndex = (s.commandbuffers c).poolIndex
  device : ∀ c, (t.commandbuffers c).device = (s.commandbuffers c).device
  notes : ∀ c, (t.commandbuffers c).replayPending = true →
    (t.commandbuffers c).notes = (s.commandbuffers c).notes
  recorded : ∀ c, (s.commandbuffers c).recorded = {} → (t.commandbuffers c).recorded = {}
  running : t.running ⊆ s.running

theorem Waited.refl (s : State) : Waited s s :=
  ⟨rfl, rfl, rfl, rfl, fun _ => rfl, fun _ => rfl, fun _ _ => rfl, fun _ h => h,
    List.Subset.refl _⟩

theorem Waited.trans {r t : State} (hfirst : Waited r s) (hsecond : Waited s t) :
    Waited r t where
  size := hsecond.size.trans hfirst.size
  queueDevice := hsecond.queueDevice.trans hfirst.queueDevice
  live := hsecond.live.trans hfirst.live
  fenceLive := hsecond.fenceLive.trans hfirst.fenceLive
  poolIndex c := (hsecond.poolIndex c).trans (hfirst.poolIndex c)
  device c := (hsecond.device c).trans (hfirst.device c)
  notes c hpending := by
    have hlater := hsecond.notes c hpending
    have hmiddle : (s.commandbuffers c).replayPending = true := by
      rw [← hpending]
      exact (congrArg Prod.fst hlater).symm
    exact hlater.trans (hfirst.notes c hmiddle)
  recorded c hc := hsecond.recorded c (hfirst.recorded c hc)
  running := fun _ he => hfirst.running (hsecond.running he)

theorem waited_settle (s : State) (P : Nat → Bool) (done : Execution → Bool) :
    Waited s (s.settle P done) where
  size := rfl
  queueDevice := rfl
  live := rfl
  fenceLive := rfl
  poolIndex c := by cases hP : P c <;> simp [State.settle, TrackedCmdbuffer.idle, hP]
  device c := by cases hP : P c <;> simp [State.settle, TrackedCmdbuffer.idle, hP]
  notes c := by cases hP : P c <;> simp [State.settle, TrackedCmdbuffer.idle, hP]
  recorded c := by cases hP : P c <;> simp [State.settle, TrackedCmdbuffer.idle, hP]
  running := fun _ he => List.mem_of_mem_filter he

theorem waited_wait (hinv : Inv s) (c : Nat) (allow : Bool) :
    Waited s (replayWaitForPendingCommandbuffer s c allow) := by
  obtain ⟨h, -⟩ | ⟨f, -, h⟩ | ⟨q, -, -, h⟩ :=
    replayWaitForPendingCommandbuffer_cases hinv c allow
  · rw [h]
    exact Waited.refl s
  · rw [h]
    exact waited_settle _ _ _
  · rw [h]
    exact waited_settle _ _ _

theorem waited_destroyRecorded (s : State) (c : Nat) : Waited s (destroyRecorded s c) := by
  have hdata : ∀ i, ((destroyRecorded s c).commandbuffers i).notes =
      (s.commandbuffers i).notes ∧
      ((destroyRecorded s c).commandbuffers i).poolIndex = (s.commandbuffers i).poolIndex ∧
      ((destroyRecorded s c).commandbuffers i).device = (s.commandbuffers i).device ∧
      ((s.commandbuffers i).recorded = {} →
        ((destroyRecorded s c).commandbuffers i).recorded = {}) := by
    intro i
    by_cases hi : i = c
    · subst hi
      simp [destroyRecorded, State.setCommandbuffer, TrackedCmdbuffer.notes]
    · simp [destroyRecorded, State.setCommandbuffer, hi]
  exact ⟨rfl, rfl, rfl, rfl, fun i => (hdata i).2.1, fun i => (hdata i).2.2.1,
    fun i _ => (hdata i).1, fun i => (hdata i).2.2.2, List.Subset.refl _⟩

theorem waited_cleanup (hinv : Inv s) (c : Nat) :
    Waited s (replayCleanupCommandbufferForRerecord s c) :=
  (waited_wait hinv c false).trans (waited_destroyRecorded _ c)

/-- A loop of waits and clean-ups. -/
theorem foldl_waited {body : State → Nat → State}
    (hbody : ∀ s c, Inv s → Inv (body s c) ∧ Waited s (body s c)) (l : List Nat)
    (hinv : Inv s) : Inv (l.foldl body s) ∧ Waited s (l.foldl body s) := by
  induction l generalizing s with
  | nil => exact ⟨hinv, Waited.refl s⟩
  | cons c l ih =>
      have hfirst := hbody s c hinv
      have hrest := ih hfirst.1
      exact ⟨hrest.1, hfirst.2.trans hrest.2⟩

theorem preQueueSubmit_waited (hinv : Inv s) (submits : List (List Nat)) :
    Inv (replayPreQueueSubmit s submits) ∧ Waited s (replayPreQueueSubmit s submits) :=
  foldl_waited (fun _ c h => ⟨h.wait c true, waited_wait h c true⟩) _ hinv

theorem cleanupIfInPool_waited (hinv : Inv s) (pool c : Nat) :
    Inv (cleanupIfInPool pool s c) ∧ Waited s (cleanupIfInPool pool s c) := by
  unfold cleanupIfInPool
  split
  · exact ⟨hinv.cleanup c, waited_cleanup hinv c⟩
  · exact ⟨hinv, Waited.refl s⟩

theorem preCommandPool_waited (hinv : Inv s) (pool : Nat) :
    Inv (replayPreCommandPool s pool) ∧ Waited s (replayPreCommandPool s pool) :=
  foldl_waited (fun _ c h => cleanupIfInPool_waited h pool c) _ hinv

theorem preFreeCommandBuffers_waited (hinv : Inv s) (handles : List (Option Nat)) :
    Inv (replayPreFreeCommandBuffers s handles) ∧
      Waited s (replayPreFreeCommandBuffers s handles) :=
  foldl_waited (fun _ c h => ⟨h.cleanup c, waited_cleanup h c⟩) _ hinv

/-- A loop over fences that are signalled or reset. -/
theorem foldl_fences {body : State → Nat → State}
    (hbody : ∀ s f, Inv s → s.fenceLive f = true → Inv (body s f) ∧ Waited s (body s f))
    {l : List Nat} (hlive : ∀ f ∈ l, s.fenceLive f = true) (hinv : Inv s) :
    Inv (l.foldl body s) ∧ Waited s (l.foldl body s) := by
  induction l generalizing s with
  | nil => exact ⟨hinv, Waited.refl s⟩
  | cons f l ih =>
      have hfirst := hbody s f hinv (hlive f (List.mem_cons_self ..))
      have hrest := ih (s := body s f) (fun g hg => by
        rw [hfirst.2.fenceLive]
        exact hlive g (List.mem_cons_of_mem _ hg)) hfirst.1
      exact ⟨hrest.1, hfirst.2.trans hrest.2⟩

theorem signal_waited (hinv : Inv s) (hlive : s.fenceLive f = true) :
    Inv (signal s f) ∧ Waited s (signal s f) := by
  rw [signal_eq hinv hlive]
  exact ⟨hinv.settle _ _, waited_settle _ _ _⟩

theorem clearPendingFence_waited (hinv : Inv s) (hlive : s.fenceLive f = true) :
    Inv (replayClearPendingFence s f) ∧ Waited s (replayClearPendingFence s f) := by
  rw [replayClearPendingFence_eq hinv hlive]
  exact ⟨hinv.settle _ _, waited_settle _ _ _⟩

/-- A cleaned up command buffer is not pending, and stays so. -/
theorem cleanup_idle (hinv : Inv s) (c : Nat) :
    ((replayCleanupCommandbufferForRerecord s c).commandbuffers c).replayPending = false ∧
      ((replayCleanupCommandbufferForRerecord s c).commandbuffers c).recorded = {} := by
  constructor
  · obtain ⟨h, hidle⟩ | ⟨f, hfence, h⟩ | ⟨q, -, -, h⟩ :=
      replayWaitForPendingCommandbuffer_cases hinv c false
    · simpa [replayCleanupCommandbufferForRerecord, h, destroyRecorded,
        State.setCommandbuffer] using hidle
    · simp [replayCleanupCommandbufferForRerecord, h, destroyRecorded,
        State.setCommandbuffer, State.settle, TrackedCmdbuffer.idle, hfence]
    · simp [replayCleanupCommandbufferForRerecord, h, destroyRecorded,
        State.setCommandbuffer, State.settle, TrackedCmdbuffer.idle]
  · simp [replayCleanupCommandbufferForRerecord, destroyRecorded, State.setCommandbuffer]

theorem Waited.idle {t : State} (hwaited : Waited s t)
    (hidle : (s.commandbuffers c).replayPending = false) :
    (t.commandbuffers c).replayPending = false := by
  by_contra hpending
  have hpending : (t.commandbuffers c).replayPending = true := by simpa using hpending
  have hnotes := congrArg Prod.fst (hwaited.notes c hpending)
  simp only [TrackedCmdbuffer.notes, hpending, hidle] at hnotes
  cases hnotes

/-- The freed command buffers are not pending. -/
theorem preFree_idle (hinv : Inv s) {handles : List (Option Nat)} (hmem : some c ∈ handles) :
    ((replayPreFreeCommandBuffers s handles).commandbuffers c).replayPending = false := by
  have hindex : c ∈ handles.map indexOf := List.mem_map.mpr ⟨some c, hmem, rfl⟩
  obtain ⟨before, after, hsplit⟩ := List.append_of_mem hindex
  rw [replayPreFreeCommandBuffers, hsplit, List.foldl_append, List.foldl_cons]
  have hbody : ∀ s c, Inv s → Inv (replayCleanupCommandbufferForRerecord s c) ∧
      Waited s (replayCleanupCommandbufferForRerecord s c) :=
    fun _ c h => ⟨h.cleanup c, waited_cleanup h c⟩
  have hfront := foldl_waited hbody before hinv
  have hrest := foldl_waited hbody after (hfront.1.cleanup c)
  exact hrest.2.idle (cleanup_idle hfront.1 c).1

/-- Every call keeps the notes in agreement. -/
theorem Inv.step (hinv : Inv s) (hstep : step s a = some next) : Inv next := by
  cases step_called hstep with
  | @createFence f =>
      refine hinv.congr (fun _ => rfl) rfl (fun _ _ h => h) hinv.live_lt fun g hg => ?_
      by_cases h : g = f <;> simp [h, hg]
  | @allocateCommandBuffer c pool device hlt hfree =>
      have hset := hinv.setCommandbuffer c
        { s.commandbuffers c with poolIndex := some pool, device := device } rfl
      refine hset.congr (fun _ => rfl) rfl (fun i _ hi => ?_) (fun i hi => ?_) (fun _ h => h)
      · by_cases h : i = c
        · simp [h]
        · simpa [h, State.setCommandbuffer] using hi
      · by_cases h : i = c
        · exact h ▸ hlt
        · exact hinv.live_lt i (by simpa [h, State.setCommandbuffer] using hi)
  | record => exact hinv.setCommandbuffer _ _ rfl
  | @submitted queue submits fence hlive hfence =>
      -- what the submit waits for first takes nothing from its own command buffers
      have hwaited := preQueueSubmit_waited hinv submits
      apply Inv.markAll
      · exact hwaited.1.congr (fun _ => rfl) rfl (fun _ _ h => h) hwaited.1.live_lt
          fun _ h => h
      · intro c hc
        show (replayPreQueueSubmit s submits).live c = true
        rw [hwaited.2.live]
        exact (hlive c hc).1
      · show fence.all (replayPreQueueSubmit s submits).fenceLive = true
        rwa [hwaited.2.fenceLive]
  | notSubmitted => exact (preQueueSubmit_waited hinv _).1
  | waitForFences hlive =>
      exact (foldl_fences (fun _ _ h hf => signal_waited h hf) hlive hinv).1
  | fenceSignalled hlive => exact (signal_waited hinv hlive).1
  | resetFences hlive =>
      exact (foldl_fences (fun _ _ h hf => clearPendingFence_waited h hf) hlive hinv).1
  | fenceNotSignalled | fencesNotReset | queueNotIdle | deviceNotIdle => exact hinv
  | queueWaitIdle =>
      rw [replayCallbackQueueWaitIdle_eq (hinv.finish _)]
      exact (hinv.finish _).settle _ _
  | deviceWaitIdle =>
      rw [replayCallbackDeviceWaitIdle_eq (hinv.finish _)]
      exact (hinv.finish _).settle _ _
  | beginCommandBuffer => exact (hinv.cleanup _).setCommandbuffer _ _ rfl
  | resetCommandBuffer => exact hinv.cleanup _
  | @freeCommandBuffers handles =>
      have hwaited := preFreeCommandBuffers_waited hinv handles
      refine hwaited.1.congr (fun _ => rfl) rfl (fun i hpending hi => ?_) (fun i hi => ?_)
        (fun _ h => h)
      · -- a command buffer that is pending has not been freed
        have hkept : some i ∉ handles := by
          intro hmem
          rw [preFree_idle hinv hmem] at hpending
          cases hpending
        simp [unsetCommandbuffers, hi, hkept]
      · apply hwaited.1.live_lt
        simp only [unsetCommandbuffers, Bool.and_eq_true] at hi
        exact hi.1
  | resetCommandPool | destroyCommandPool => exact (preCommandPool_waited hinv _).1

/-! ## Command buffer 0 -/

/-- A command buffer's fence, by its notes. -/
theorem Waited.fence {t : State} (hwaited : Waited s t) (hinv : Inv t)
    (hfence : (t.commandbuffers c).replaySubmitFenceIndex = some f) :
    (s.commandbuffers c).replaySubmitFenceIndex = some f := by
  have hnotes := hwaited.notes c (hinv.pending_of_fence c f hfence)
  rw [← hfence]
  exact (congrArg (fun notes => notes.2.2) hnotes).symm

/-- Two command buffers on one fence leave it together. -/
theorem cleanup_together (hinv : Inv s) {i j : Nat} (c : Nat)
    (htogether : (s.commandbuffers i).replaySubmitFenceIndex = some f →
      (s.commandbuffers j).replaySubmitFenceIndex = some f) :
    ((replayCleanupCommandbufferForRerecord s c).commandbuffers i).replaySubmitFenceIndex =
        some f →
      ((replayCleanupCommandbufferForRerecord s c).commandbuffers j).replaySubmitFenceIndex =
        some f := by
  -- dropping what was recorded leaves the notes alone
  have hdestroy : ∀ (t : State) (k : Nat),
      ((destroyRecorded t c).commandbuffers k).replaySubmitFenceIndex =
        (t.commandbuffers k).replaySubmitFenceIndex := by
    intro t k
    by_cases hk : k = c
    · subst hk
      simp [destroyRecorded, State.setCommandbuffer]
    · simp [destroyRecorded, State.setCommandbuffer, hk]
  rw [replayCleanupCommandbufferForRerecord, hdestroy, hdestroy]
  obtain ⟨h, -⟩ | ⟨g, -, h⟩ | ⟨q, hnone, -, h⟩ :=
    replayWaitForPendingCommandbuffer_cases hinv c false
  · rwa [h]
  · rw [h]
    intro hi
    have hout : (s.commandbuffers i).replaySubmitFenceIndex = some f :=
      (waited_settle s _ _).fence (hinv.settle _ _) hi
    have hne : f ≠ g := by
      rintro rfl
      simp [State.settle, hout, TrackedCmdbuffer.idle] at hi
    simp [State.settle, htogether hout, hne]
  · rw [h]
    intro hi
    have hout : (s.commandbuffers i).replaySubmitFenceIndex = some f :=
      (waited_settle s _ _).fence (hinv.settle _ _) hi
    have hne : j ≠ c := by
      rintro rfl
      rw [htogether hout] at hnone
      cases hnone
    simpa [State.settle, hne] using htogether hout

/-- Not pending, and nothing of the recording left. -/
def CleanedUp (data : TrackedCmdbuffer) : Prop :=
  data.replayPending = false ∧ data.recorded = {}

/-- Another command buffer of the pool waits for the fence of command buffer 0. -/
def SharesFence (s : State) (pool : Nat) : Prop :=
  ∃ c < s.size, c ≠ 0 ∧ s.live c = true ∧ (s.commandbuffers c).poolIndex = some pool ∧
    (s.commandbuffers c).replaySubmitFenceIndex ≠ none ∧
    (s.commandbuffers c).replaySubmitFenceIndex = (s.commandbuffers 0).replaySubmitFenceIndex

/-- A member of the pool that the loop visits is cleaned up. -/
theorem preCommandPool_cleanedUp (hinv : Inv s) {pool : Nat} (hlive : s.live c = true)
    (hne : c ≠ 0) (hpool : (s.commandbuffers c).poolIndex = some pool) :
    CleanedUp ((replayPreCommandPool s pool).commandbuffers c) := by
  have hmem : c ∈ visited s := (mem_visited hinv).mpr ⟨hlive, hne⟩
  obtain ⟨before, after, hsplit⟩ := List.append_of_mem hmem
  rw [replayPreCommandPool, hsplit, List.foldl_append, List.foldl_cons]
  have hbody : ∀ s i, Inv s → Inv (cleanupIfInPool pool s i) ∧
      Waited s (cleanupIfInPool pool s i) :=
    fun _ i h => cleanupIfInPool_waited h pool i
  have hfront := foldl_waited hbody before hinv
  rw [cleanupIfInPool, if_pos ((hfront.2.poolIndex c).trans hpool)]
  have hdone := cleanup_idle hfront.1 c
  have hrest := foldl_waited hbody after (hfront.1.cleanup c)
  exact ⟨hrest.2.idle hdone.1, hrest.2.recorded c hdone.2⟩

/-- The loop leaves what is recorded in command buffer 0. -/
theorem preCommandPool_recorded_zero (hinv : Inv s) (pool : Nat) :
    ((replayPreCommandPool s pool).commandbuffers 0).recorded =
      (s.commandbuffers 0).recorded := by
  have hloop : ∀ (l : List Nat) (t : State), Inv t → (∀ c ∈ l, c ≠ 0) →
      ((l.foldl (cleanupIfInPool pool) t).commandbuffers 0).recorded =
        (t.commandbuffers 0).recorded := by
    intro l
    induction l with
    | nil => exact fun _ _ _ => rfl
    | cons c l ih =>
        intro t ht hne
        have hrest : ∀ i ∈ l, i ≠ 0 := fun i hi => hne i (List.mem_cons_of_mem _ hi)
        rw [List.foldl_cons, cleanupIfInPool]
        split
        · rw [ih _ (ht.cleanup c) hrest]
          have hc : 0 ≠ c := (hne c (List.mem_cons_self ..)).symm
          obtain ⟨h, -⟩ | ⟨f, -, h⟩ | ⟨q, -, -, h⟩ :=
            replayWaitForPendingCommandbuffer_cases ht c false
          all_goals
            simp [replayCleanupCommandbufferForRerecord, h, destroyRecorded,
              State.setCommandbuffer, State.settle, TrackedCmdbuffer.idle, hc]
          split <;> rfl
        · exact ih t ht hrest
  exact hloop _ s hinv fun c hc => ((mem_visited hinv).mp hc).2

/-- With nobody to wait for its fence, command buffer 0 stays pending. -/
theorem preCommandPool_pending_zero (hinv : Inv s) {pool : Nat}
    (hpending : (s.commandbuffers 0).replayPending = true) (halone : ¬ SharesFence s pool) :
    ((replayPreCommandPool s pool).commandbuffers 0).replayPending = true := by
  -- the loop begins at 1, so command buffer 0 can only go idle with the fence of another one
  have hloop : ∀ (l : List Nat) (t : State), Inv t → Waited s t → (∀ c ∈ l, c ∈ visited s) →
      (t.commandbuffers 0).replayPending = true →
      ((l.foldl (cleanupIfInPool pool) t).commandbuffers 0).replayPending = true := by
    intro l
    induction l with
    | nil => exact fun _ _ _ _ h => h
    | cons c l ih =>
        intro t ht hwaited hmem hzero
        have hrest : ∀ i ∈ l, i ∈ visited s := fun i hi => hmem i (List.mem_cons_of_mem _ hi)
        have hc := (mem_visited hinv).mp (hmem c (List.mem_cons_self ..))
        rw [List.foldl_cons, cleanupIfInPool]
        split
        case isFalse => exact ih t ht hwaited hrest hzero
        case isTrue hpool =>
        refine ih _ (ht.cleanup c) (hwaited.trans (waited_cleanup ht c)) hrest ?_
        obtain ⟨h, -⟩ | ⟨f, hfence, h⟩ | ⟨q, -, -, h⟩ :=
          replayWaitForPendingCommandbuffer_cases ht c false
        · simpa [replayCleanupCommandbufferForRerecord, h, destroyRecorded,
            State.setCommandbuffer, hc.2.symm] using hzero
        · have hother : (t.commandbuffers 0).replaySubmitFenceIndex ≠ some f := by
            intro hboth
            have hfenceStart := hwaited.fence ht hfence
            rw [hwaited.poolIndex] at hpool
            exact halone ⟨c, hinv.live_lt c hc.1, hc.2, hc.1, hpool, by simp [hfenceStart],
              hfenceStart.trans (hwaited.fence ht hboth).symm⟩
          simpa [replayCleanupCommandbufferForRerecord, h, destroyRecorded,
            State.setCommandbuffer, State.settle, hc.2.symm, hother] using hzero
        · simpa [replayCleanupCommandbufferForRerecord, h, destroyRecorded,
            State.setCommandbuffer, State.settle, hc.2.symm] using hzero
  exact hloop _ s hinv (Waited.refl s) (fun _ h => h) hpending

/-- On the other hand it is not pending when somebody has waited for its fence. -/
theorem preCommandPool_shared_zero (hinv : Inv s) {pool : Nat} (hshares : SharesFence s pool) :
    ((replayPreCommandPool s pool).commandbuffers 0).replayPending = false := by
  obtain ⟨c, -, hne, hlive, hpool, hsome, hsame⟩ := hshares
  obtain ⟨f, hfence⟩ := Option.ne_none_iff_exists'.mp hsome
  have hzero := hsame.symm.trans hfence
  have hwaited := preCommandPool_waited hinv pool
  -- along the loop the two leave the fence together, if at all
  have htogether : ((replayPreCommandPool s pool).commandbuffers 0).replaySubmitFenceIndex =
      some f →
      ((replayPreCommandPool s pool).commandbuffers c).replaySubmitFenceIndex = some f := by
    have hloop : ∀ (l : List Nat) (t : State), Inv t →
        ((t.commandbuffers 0).replaySubmitFenceIndex = some f →
          (t.commandbuffers c).replaySubmitFenceIndex = some f) →
        ((l.foldl (cleanupIfInPool pool) t).commandbuffers 0).replaySubmitFenceIndex = some f →
        ((l.foldl (cleanupIfInPool pool) t).commandbuffers c).replaySubmitFenceIndex =
          some f := by
      intro l
      induction l with
      | nil => exact fun _ _ h => h
      | cons i l ih =>
          intro t ht h
          rw [List.foldl_cons, cleanupIfInPool]
          split
          · exact ih _ (ht.cleanup i) (cleanup_together ht i h)
          · exact ih t ht h
    exact hloop _ s hinv fun _ => hfence
  by_contra hpending
  have hpending : ((replayPreCommandPool s pool).commandbuffers 0).replayPending = true := by
    simpa using hpending
  have hkept : ((replayPreCommandPool s pool).commandbuffers 0).replaySubmitFenceIndex =
      some f := by
    have hnotes := congrArg (fun notes => notes.2.2) (hwaited.2.notes 0 hpending)
    exact hnotes.trans hzero
  -- and the other one has been cleaned up
  have hclean := preCommandPool_cleanedUp hinv hlive hne hpool
  have := hwaited.1.pending_of_fence c f (htogether hkept)
  rw [hclean.1] at this
  cases this

/-! ## When the notes are what they should be -/

/-- A command buffer is pending with a fence exactly when it is in the list of the fence,
and it is there once. -/
def FenceLists (s : State) : Prop :=
  ∀ c f, (s.fences f).count c =
    if (s.commandbuffers c).replayPending ∧
        (s.commandbuffers c).replaySubmitFenceIndex = some f then 1 else 0

theorem Inv.fenceLists (hinv : Inv s) : FenceLists s := by
  intro c f
  by_cases hfence : (s.commandbuffers c).replaySubmitFenceIndex = some f
  · rw [if_pos ⟨hinv.pending_of_fence c f hfence, hfence⟩]
    exact List.count_eq_one_of_mem (hinv.nodup f) ((hinv.listed c f).mpr hfence)
  · rw [if_neg fun h => hfence h.2, List.count_eq_zero]
    exact fun hmem => hfence ((hinv.listed c f).mp hmem)

/-- What a call leaves behind: nothing pending on an idle queue or an idle device, and the
live command buffers of a pool that is reset or destroyed cleaned up. -/
def Settled (a : Action) (next : State) : Prop :=
  match a with
  | .queueWaitIdle queue true =>
      ∀ c, ¬ ((next.commandbuffers c).replayPending = true ∧
        (next.commandbuffers c).replaySubmitQueue = some queue)
  | .deviceWaitIdle device true =>
      ∀ c, ¬ ((next.commandbuffers c).replayPending = true ∧
        (next.commandbuffers c).device = device)
  | .resetCommandPool pool | .destroyCommandPool pool =>
      ∀ c, next.live c = true → (next.commandbuffers c).poolIndex = some pool →
        CleanedUp (next.commandbuffers c)
  | _ => True

/-- Command buffer 0 is not one of those a call has to settle.  In a pool it may be, when it
has recorded nothing and another command buffer of the pool waits for its fence. -/
def ZeroSettled (s : State) (a : Action) : Prop :=
  match a with
  | .queueWaitIdle queue true =>
      ¬ ((s.commandbuffers 0).replayPending = true ∧
        (s.commandbuffers 0).replaySubmitQueue = some queue)
  | .deviceWaitIdle device true =>
      ¬ ((s.commandbuffers 0).replayPending = true ∧ (s.commandbuffers 0).device = device)
  | .resetCommandPool pool | .destroyCommandPool pool =>
      s.live 0 = true → (s.commandbuffers 0).poolIndex = some pool →
        (s.commandbuffers 0).recorded = {} ∧
          ((s.commandbuffers 0).replayPending = true → SharesFence s pool)
  | _ => True

instance (s : State) (pool : Nat) : Decidable (SharesFence s pool) :=
  inferInstanceAs (Decidable (∃ c < s.size, c ≠ 0 ∧ s.live c = true ∧
    (s.commandbuffers c).poolIndex = some pool ∧
    (s.commandbuffers c).replaySubmitFenceIndex ≠ none ∧
    (s.commandbuffers c).replaySubmitFenceIndex =
      (s.commandbuffers 0).replaySubmitFenceIndex))

instance decidableZeroSettled (s : State) : ∀ a, Decidable (ZeroSettled s a)
  | .queueWaitIdle queue true => inferInstanceAs
      (Decidable (¬ ((s.commandbuffers 0).replayPending = true ∧
        (s.commandbuffers 0).replaySubmitQueue = some queue)))
  | .deviceWaitIdle device true => inferInstanceAs
      (Decidable (¬ ((s.commandbuffers 0).replayPending = true ∧
        (s.commandbuffers 0).device = device)))
  | .resetCommandPool pool | .destroyCommandPool pool => inferInstanceAs
      (Decidable (s.live 0 = true → (s.commandbuffers 0).poolIndex = some pool →
        (s.commandbuffers 0).recorded = {} ∧
          ((s.commandbuffers 0).replayPending = true → SharesFence s pool)))
  | .queueWaitIdle _ false | .deviceWaitIdle _ false | .createFence _
  | .allocateCommandBuffer .. | .record .. | .queueSubmit .. | .waitForFences ..
  | .getFenceStatus .. | .resetFences .. | .beginCommandBuffer .. | .resetCommandBuffer ..
  | .freeCommandBuffers .. => .isTrue trivial

/-- A wait for the command buffers that meet `R`. -/
theorem waitIdle_iff (hinv : Inv s) {R : TrackedCmdbuffer → Prop} [DecidablePred R]
    (hpending : ∀ data, R data → data.replayPending = true)
    (hidle : ∀ data : TrackedCmdbuffer, ¬ R data.idle)
    (done : Execution → Bool) :
    (∀ c, ¬ R ((s.settle (fun c => decide (c ∈ visited s ∧ R (s.commandbuffers c)))
        done).commandbuffers c)) ↔ ¬ R (s.commandbuffers 0) := by
  have hzero : 0 ∉ visited s := fun h => ((mem_visited hinv).mp h).2 rfl
  constructor
  · intro hall hR
    exact hall 0 (by simpa [State.settle, hzero] using hR)
  · intro hR c hc
    by_cases hP : c ∈ visited s ∧ R (s.commandbuffers c)
    · simp only [State.settle, decide_eq_true hP, if_true] at hc
      exact hidle _ hc
    · have hc : R (s.commandbuffers c) := by simpa [State.settle, hP] using hc
      have hlive := hinv.live_of_pending c (hpending _ hc)
      have hne : c ≠ 0 := by
        rintro rfl
        exact hR hc
      exact hP ⟨(mem_visited hinv).mpr ⟨hlive, hne⟩, hc⟩

theorem preCommandPool_iff (hinv : Inv s) (pool : Nat) :
    (∀ c, (replayPreCommandPool s pool).live c = true →
      ((replayPreCommandPool s pool).commandbuffers c).poolIndex = some pool →
        CleanedUp ((replayPreCommandPool s pool).commandbuffers c)) ↔
      (s.live 0 = true → (s.commandbuffers 0).poolIndex = some pool →
        (s.commandbuffers 0).recorded = {} ∧
          ((s.commandbuffers 0).replayPending = true → SharesFence s pool)) := by
  have hwaited := (preCommandPool_waited hinv pool).2
  simp only [hwaited.live, hwaited.poolIndex]
  constructor
  · intro hall hlive hpool
    obtain ⟨hidle, hrecorded⟩ := hall 0 hlive hpool
    rw [preCommandPool_recorded_zero hinv] at hrecorded
    refine ⟨hrecorded, fun hpending => ?_⟩
    by_contra halone
    rw [preCommandPool_pending_zero hinv hpending halone] at hidle
    cases hidle
  · intro hzero c hlive hpool
    by_cases hc : c = 0
    · subst hc
      obtain ⟨hrecorded, hshares⟩ := hzero hlive hpool
      refine ⟨?_, hwaited.recorded 0 hrecorded⟩
      by_cases hpending : (s.commandbuffers 0).replayPending = true
      · exact preCommandPool_shared_zero hinv (hshares hpending)
      · exact hwaited.idle (by simpa using hpending)
    · exact preCommandPool_cleanedUp hinv hlive hc hpool

/-- One call leaves settled what it has to, unless that is command buffer 0. -/
theorem settled_iff (hinv : Inv s) (hstep : step s a = some next) :
    Settled a next ↔ ZeroSettled s a := by
  cases step_called hstep with
  | @queueWaitIdle queue =>
      rw [replayCallbackQueueWaitIdle_eq (hinv.finish _)]
      exact waitIdle_iff (hinv.finish _)
        (R := fun data => data.replayPending = true ∧ data.replaySubmitQueue = some queue)
        (fun _ h => h.1) (fun _ h => by simp [TrackedCmdbuffer.idle] at h) _
  | @deviceWaitIdle device =>
      rw [replayCallbackDeviceWaitIdle_eq (hinv.finish _)]
      exact waitIdle_iff (hinv.finish _)
        (R := fun data => data.replayPending = true ∧ data.device = device)
        (fun _ h => h.1) (fun _ h => by simp [TrackedCmdbuffer.idle] at h) _
  | resetCommandPool | destroyCommandPool => exact preCommandPool_iff hinv _
  | _ => exact Iff.rfl

/-- **The notes along every run.**  The lists of the fences are always right.  Every wait
settles what it should, and every pool that is reset or destroyed is cleaned up, exactly as
long as no such call meets command buffer 0. -/
theorem bookkeeping_iff {size : Nat} {queueDevice : Nat → Nat} {run : List Action}
    {final : State} (hexec : exec step (initial size queueDevice) run = some final) :
    ((∀ k s, exec step (initial size queueDevice) (run.take k) = some s → FenceLists s) ∧
      ∀ k s a next, exec step (initial size queueDevice) (run.take k) = some s →
        run[k]? = some a → step s a = some next → Settled a next) ↔
      Along step ZeroSettled (initial size queueDevice) run := by
  have hsteps := steps_iff_along (fun s a next (hinv : Inv s) hstep => hinv.step hstep)
    (fun s a next hinv hstep => show Settled a next ↔ ZeroSettled s a from
      settled_iff hinv hstep)
    (inv_initial size queueDevice) hexec
  refine ⟨fun h => hsteps.mp h.2, fun h => ⟨fun k s hs => ?_, hsteps.mpr h⟩⟩
  have hinv := exec_invariant_of_step (fun s a next (hinv : Inv s) hstep => hinv.step hstep)
    (inv_initial size queueDevice) hs
  exact hinv.fenceLists

/-- Command buffer 1 is submitted with a fence and waited for, then without one. -/
def waitingRun : List Action :=
  [.createFence 0, .allocateCommandBuffer 1 0 0, .queueSubmit 0 [[1]] (some 0) true,
    .waitForFences [0] true true [], .queueSubmit 0 [[1]] none true, .queueWaitIdle 0 true,
    .resetCommandPool 0]

theorem bookkeeping_iff_waitingRun :
    ∃ final, exec step (initial 2 fun _ => 0) waitingRun = some final ∧
      ∀ k s a next, exec step (initial 2 fun _ => 0) (waitingRun.take k) = some s →
        waitingRun[k]? = some a → step s a = some next → Settled a next := by
  have hrun : exec step (initial 2 fun _ => 0) waitingRun = some _ := rfl
  refine ⟨_, hrun, ((bookkeeping_iff hrun).mpr ?_).2⟩
  decide

/-- Command buffer 0 is submitted without a fence, and its queue is waited for. -/
def zeroRun : List Action :=
  [.allocateCommandBuffer 0 0 0, .record 0 { scratchBuffers := [7] },
    .queueSubmit 0 [[0]] none true, .queueWaitIdle 0 true, .deviceWaitIdle 0 true,
    .resetCommandPool 0]

/-- Command buffer 0 is pending on an idle queue of an idle device, and keeps its scratch
buffers when its pool is reset. -/
theorem command_buffer_zero_left_pending :
    ∃ final, exec step (initial 1 fun _ => 0) zeroRun = some final ∧
      ¬ ∀ k s a next, exec step (initial 1 fun _ => 0) (zeroRun.take k) = some s →
        zeroRun[k]? = some a → step s a = some next → Settled a next := by
  refine ⟨_, rfl, fun hall => ?_⟩
  have hqueue := hall 3 _ _ _ rfl rfl rfl 0
  exact hqueue (by decide)

/-! ## Executions that still run -/

/-- The notes of a command buffer lead to an execution: to wait for its fence, or for its
queue when there is no fence, is to wait for the execution. -/
def Covers (queueDevice : Nat → Nat) (data : TrackedCmdbuffer) (e : Execution) : Prop :=
  data.replayPending = true ∧ data.replaySubmitQueue = some e.queue ∧
    (data.replaySubmitFenceIndex = none ∨ data.replaySubmitFenceIndex = e.fence) ∧
    data.device = queueDevice e.queue

/-- Every running execution is covered by the notes of its command buffer, and no command
buffer has been cleaned up too early. -/
def Covered (s : State) : Prop :=
  (∀ e ∈ s.running, Covers s.queueDevice (s.commandbuffers e.commandbuffer) e) ∧
    s.hazards = []

theorem covered_initial (size : Nat) (queueDevice : Nat → Nat) :
    Covered (initial size queueDevice) :=
  ⟨by simp [initial], rfl⟩

/-- Command buffers may go idle whose executions have ended. -/
theorem Covered.settle (hcovered : Covered s) {P : Nat → Bool} {done : Execution → Bool}
    (hdone : ∀ e ∈ s.running, P e.commandbuffer = true →
      Covers s.queueDevice (s.commandbuffers e.commandbuffer) e → done e = true) :
    Covered (s.settle P done) := by
  refine ⟨fun e he => ?_, hcovered.2⟩
  simp only [State.settle, List.mem_filter, Bool.not_eq_true'] at he
  have hcovers := hcovered.1 e he.1
  have hP : P e.commandbuffer = false := by
    by_contra hP
    have := hdone e he.1 (by simpa using hP) hcovers
    rw [this] at he
    cases he.2
  simpa [State.settle, hP] using hcovers

/-- A command buffer that is not pending does not execute. -/
theorem Covered.not_running (hcovered : Covered s)
    (hidle : (s.commandbuffers c).replayPending = false) :
    ∀ e ∈ s.running, e.commandbuffer ≠ c := by
  rintro e he rfl
  have := (hcovered.1 e he).1
  rw [hidle] at this
  cases this

/-- Data of a command buffer changed that the executions do not depend on. -/
theorem Covered.setCommandbuffer (hcovered : Covered s) (c : Nat) (data : TrackedCmdbuffer)
    (hnotes : data.notes = (s.commandbuffers c).notes)
    (hdevice : data.device = (s.commandbuffers c).device) :
    Covered (s.setCommandbuffer c data) := by
  simp only [TrackedCmdbuffer.notes, Prod.mk.injEq] at hnotes
  obtain ⟨hpending, hqueue, hfence⟩ := hnotes
  refine ⟨fun e he => ?_, hcovered.2⟩
  have hcovers := hcovered.1 e he
  by_cases hc : e.commandbuffer = c
  · rw [hc] at hcovers
    simpa [State.setCommandbuffer, hc, Covers, hpending, hqueue, hfence, hdevice] using hcovers
  · simpa [State.setCommandbuffer, hc] using hcovers

theorem Covered.signal (hcovered : Covered s) (hinv : Inv s) (hlive : s.fenceLive f = true) :
    Covered (signal s f) := by
  rw [signal_eq hinv hlive]
  apply hcovered.settle
  intro e _ hP hcovers
  have hfence : (s.commandbuffers e.commandbuffer).replaySubmitFenceIndex = some f := by
    simpa using hP
  have := hcovers.2.2.1
  rw [hfence] at this
  simpa [eq_comm] using this

theorem Covered.wait (hcovered : Covered s) (hinv : Inv s) (c : Nat) (allow : Bool) :
    Covered (replayWaitForPendingCommandbuffer s c allow) := by
  obtain ⟨h, -⟩ | ⟨f, hfence, h⟩ | ⟨q, -, hqueue, h⟩ :=
    replayWaitForPendingCommandbuffer_cases hinv c allow
  · rwa [h]
  · rw [h, ← signal_eq hinv (hinv.fenceLive c f hfence)]
    exact hcovered.signal hinv (hinv.fenceLive c f hfence)
  · rw [h]
    apply hcovered.settle
    intro e _ hP hcovers
    have hc : e.commandbuffer = c := by simpa using hP
    have hsame := hcovers.2.1
    rw [hc, hqueue] at hsame
    simpa [eq_comm] using hsame

/-- **A clean-up waits long enough**, as long as the notes cover the executions. -/
theorem Covered.cleanup (hcovered : Covered s) (hinv : Inv s) (c : Nat) :
    Covered (replayCleanupCommandbufferForRerecord s c) := by
  have hwait := hcovered.wait hinv c false
  have hidle : ((replayWaitForPendingCommandbuffer s c false).commandbuffers c).replayPending =
      false := by
    simpa [replayCleanupCommandbufferForRerecord, destroyRecorded, State.setCommandbuffer]
      using (cleanup_idle hinv c).1
  have hnone : (replayWaitForPendingCommandbuffer s c false).running.any
      (·.commandbuffer = c) = false := by
    simpa using hwait.not_running hidle
  have hset := hwait.setCommandbuffer c
    { (replayWaitForPendingCommandbuffer s c false).commandbuffers c with recorded := {} }
    rfl rfl
  refine ⟨hset.1, ?_⟩
  simpa [replayCleanupCommandbufferForRerecord, destroyRecorded, hnone] using hwait.2

/-- A loop that keeps the executions covered. -/
theorem foldl_covered {body : State → Nat → State}
    (hbody : ∀ s c, Inv s → Covered s → Inv (body s c) ∧ Covered (body s c)) (l : List Nat)
    (hinv : Inv s) (hcovered : Covered s) : Covered (l.foldl body s) := by
  induction l generalizing s with
  | nil => exact hcovered
  | cons c l ih =>
      have hfirst := hbody s c hinv hcovered
      exact ih hfirst.1 hfirst.2

theorem Covered.preCommandPool (hcovered : Covered s) (hinv : Inv s) (pool : Nat) :
    Covered (replayPreCommandPool s pool) := by
  apply foldl_covered (fun s c hinv hcovered => ?_) _ hinv hcovered
  refine ⟨(cleanupIfInPool_waited hinv pool c).1, ?_⟩
  unfold cleanupIfInPool
  split
  · exact hcovered.cleanup hinv c
  · exact hcovered

theorem Covered.signalAll (hcovered : Covered s) (hinv : Inv s) {l : List Nat}
    (hlive : ∀ f ∈ l, s.fenceLive f = true) : Covered (l.foldl PendingCommandbuffers.signal s) := by
  induction l generalizing s with
  | nil => exact hcovered
  | cons f l ih =>
      have hf := hlive f (List.mem_cons_self ..)
      have hnext := signal_waited hinv hf
      apply ih (hcovered.signal hinv hf) hnext.1
      intro g hg
      rw [hnext.2.fenceLive]
      exact hlive g (List.mem_cons_of_mem _ hg)

/-- A reset of a fence that no running execution uses. -/
theorem Covered.clearPendingFence (hcovered : Covered s) (hinv : Inv s)
    (hlive : s.fenceLive f = true) (hunused : ∀ e ∈ s.running, e.fence ≠ some f) :
    Covered (replayClearPendingFence s f) := by
  rw [replayClearPendingFence_eq hinv hlive]
  apply hcovered.settle
  intro e he hP hcovers
  have hfence : (s.commandbuffers e.commandbuffer).replaySubmitFenceIndex = some f := by
    simpa using hP
  have hsame := hcovers.2.2.1
  rw [hfence] at hsame
  exact absurd (by simpa [eq_comm] using hsame) (hunused e he)

theorem Covered.clearAll (hcovered : Covered s) (hinv : Inv s) {l : List Nat}
    (hlive : ∀ f ∈ l, s.fenceLive f = true)
    (hunused : ∀ f ∈ l, ∀ e ∈ s.running, e.fence ≠ some f) :
    Covered (l.foldl replayClearPendingFence s) := by
  induction l generalizing s with
  | nil => exact hcovered
  | cons f l ih =>
      have hf := hlive f (List.mem_cons_self ..)
      have hnext := clearPendingFence_waited hinv hf
      apply ih (hcovered.clearPendingFence hinv hf (hunused f (List.mem_cons_self ..))) hnext.1
      · intro g hg
        rw [hnext.2.fenceLive]
        exact hlive g (List.mem_cons_of_mem _ hg)
      · intro g hg e he
        exact hunused g (List.mem_cons_of_mem _ hg) e (hnext.2.running he)

/-- What marking leaves of the command buffers and the executions. -/
theorem mark_commandbuffers (s : State) (c queue : Nat) (fence : Option Nat) :
    (replayMarkPendingCommandbuffer s c queue fence).commandbuffers =
        Function.update s.commandbuffers c { s.commandbuffers c with
          replayPending := true
          replaySubmitQueue := some queue
          replaySubmitFenceIndex := fence } ∧
      (replayMarkPendingCommandbuffer s c queue fence).running = s.running ∧
      (replayMarkPendingCommandbuffer s c queue fence).queueDevice = s.queueDevice ∧
      (replayMarkPendingCommandbuffer s c queue fence).hazards = s.hazards := by
  have hclear : (replayClearPendingCommandbuffer s c).commandbuffers =
        Function.update s.commandbuffers c (s.commandbuffers c).idle ∧
      (replayClearPendingCommandbuffer s c).running = s.running ∧
      (replayClearPendingCommandbuffer s c).queueDevice = s.queueDevice ∧
      (replayClearPendingCommandbuffer s c).hazards = s.hazards := by
    simp only [replayClearPendingCommandbuffer]
    split
    · split <;> exact ⟨rfl, rfl, rfl, rfl⟩
    · exact ⟨rfl, rfl, rfl, rfl⟩
  obtain ⟨hdata, hrunning, hdevice, hhazards⟩ := hclear
  cases fence with
  | none =>
      simp [replayMarkPendingCommandbuffer, State.setCommandbuffer, hdata, hrunning, hdevice,
        hhazards, TrackedCmdbuffer.idle]
  | some f =>
      simp [replayMarkPendingCommandbuffer, State.setCommandbuffer, State.setFence, hdata,
        hrunning, hdevice, hhazards, TrackedCmdbuffer.idle]

/-- The loop over the command buffers of a submit.  `e` is covered behind it if the notes
cover it, or if its command buffer is yet to be marked and it goes to the same place. -/
theorem markAll_covered {queue : Nat} {fence : Option Nat} {l : List Nat} :
    ∀ {s : State}, s.hazards = [] →
      (∀ c ∈ l, (s.commandbuffers c).device = s.queueDevice queue) →
      (∀ e ∈ s.running, if e.commandbuffer ∈ l then
        e.queue = queue ∧ (fence = none ∨ e.fence = fence)
      else Covers s.queueDevice (s.commandbuffers e.commandbuffer) e) →
      Covered (l.foldl (fun s c => replayMarkPendingCommandbuffer s c queue fence) s) := by
  induction l with
  | nil => exact fun hhazards _ h => ⟨by simpa using h, hhazards⟩
  | cons c l ih =>
      intro s hhazards hdevice h
      obtain ⟨hdata, hrunning, hqueues, hkept⟩ := mark_commandbuffers s c queue fence
      have hsame : ∀ i, ((replayMarkPendingCommandbuffer s c queue fence).commandbuffers
          i).device = (s.commandbuffers i).device := by
        intro i
        rw [hdata]
        by_cases hi : i = c
        · subst hi
          simp
        · simp [hi]
      rw [List.foldl_cons]
      refine ih (hkept.trans hhazards) (fun i hi => ?_) (fun e he => ?_)
      · rw [hsame, hqueues]
        exact hdevice i (List.mem_cons_of_mem _ hi)
      · rw [hrunning] at he
        have hold := h e he
        -- the command buffer is yet to be marked, is marked now, or is not of the submit
        by_cases hl : e.commandbuffer ∈ l
        · rw [if_pos (List.mem_cons_of_mem _ hl)] at hold
          rwa [if_pos hl]
        · rw [if_neg hl]
          by_cases hc : e.commandbuffer = c
          · rw [if_pos (hc ▸ List.mem_cons_self ..)] at hold
            have hplace := hdevice c (List.mem_cons_self ..)
            rw [hdata, hqueues, hc]
            simpa [Covers, hold.1, hplace, eq_comm] using hold.2
          · rw [if_neg (by simp [hc, hl])] at hold
            rw [hdata, hqueues]
            simpa [hc] using hold

/-- No running execution is lost from the notes: a command buffer that still executes is
submitted to the same queue with the same fence again, or to the same queue without a fence,
and a fence is reset only when no running execution uses it. -/
def KeepsTrack (s : State) (a : Action) : Prop :=
  match a with
  | .queueSubmit queue submits fence true =>
      ∀ e ∈ (replayPreQueueSubmit s submits).running, e.commandbuffer ∈ submits.flatten →
        e.queue = queue ∧ (fence = none ∨ e.fence = fence)
  | .resetFences fences true => ∀ f ∈ fences, ∀ e ∈ s.running, e.fence ≠ some f
  | _ => True

theorem Covered.queueSubmit (hcovered : Covered s) (hinv : Inv s) {queue : Nat}
    {submits : List (List Nat)} {fence : Option Nat}
    (hdevice : ∀ c ∈ submits.flatten, (s.commandbuffers c).device = s.queueDevice queue)
    (hkeeps : KeepsTrack s (.queueSubmit queue submits fence true)) :
    Covered (replayCallbackQueueSubmit
      { replayPreQueueSubmit s submits with
        running := (replayPreQueueSubmit s submits).running ++ executions submits queue fence }
      queue submits fence) := by
  have hwaited := (preQueueSubmit_waited hinv submits).2
  have hpre : Covered (replayPreQueueSubmit s submits) :=
    foldl_covered (fun _ c h hc => ⟨h.wait c true, hc.wait h c true⟩) _ hinv hcovered
  refine markAll_covered hpre.2 (fun c hc => ?_) (fun e he => ?_)
  · show ((replayPreQueueSubmit s submits).commandbuffers c).device =
      (replayPreQueueSubmit s submits).queueDevice queue
    rw [hwaited.device, hwaited.queueDevice]
    exact hdevice c hc
  · rcases List.mem_append.mp he with hold | hnew
    · by_cases hmem : e.commandbuffer ∈ submits.flatten
      · rw [if_pos hmem]
        exact hkeeps e hold hmem
      · rw [if_neg hmem]
        exact hpre.1 e hold
    · simp only [executions, List.mem_map] at hnew
      obtain ⟨c, hc, rfl⟩ := hnew
      rw [if_pos hc]
      exact ⟨rfl, Or.inr rfl⟩

/-- Every call that loses track of no execution keeps all of them covered. -/
theorem Covered.step (hcovered : Covered s) (hinv : Inv s) (hkeeps : KeepsTrack s a)
    (hstep : step s a = some next) : Covered next := by
  cases step_called hstep with
  | createFence => exact hcovered
  | @allocateCommandBuffer c pool device hlt hfree =>
      -- a command buffer that is not live is not pending, so none of its executions runs
      have hidle : (s.commandbuffers c).replayPending = false := by
        by_contra hpending
        have := hinv.live_of_pending c (by simpa using hpending)
        rw [hfree] at this
        cases this
      refine ⟨fun e he => ?_, hcovered.2⟩
      have hne := hcovered.not_running hidle e he
      simpa [State.setCommandbuffer, hne] using hcovered.1 e he
  | record => exact hcovered.setCommandbuffer _ _ rfl rfl
  | submitted hlive => exact hcovered.queueSubmit hinv (fun c hc => (hlive c hc).2) hkeeps
  | notSubmitted =>
      exact foldl_covered (fun _ c h hc => ⟨h.wait c true, hc.wait h c true⟩) _ hinv hcovered
  | waitForFences hlive => exact hcovered.signalAll hinv hlive
  | fenceSignalled hlive => exact hcovered.signal hinv hlive
  | resetFences hlive => exact hcovered.clearAll hinv hlive hkeeps
  | fenceNotSignalled | fencesNotReset | queueNotIdle | deviceNotIdle => exact hcovered
  | queueWaitIdle =>
      rw [replayCallbackQueueWaitIdle_eq (hinv.finish _),
        State.finish_eq_settle, State.settle_settle]
      apply hcovered.settle
      intro e _ hP hcovers
      have hqueue := hcovers.2.1
      simp only [Bool.false_or, State.settle, Bool.false_eq_true, if_false,
        decide_eq_true_eq] at hP
      rw [hP.2.2] at hqueue
      simpa [eq_comm] using hqueue
  | deviceWaitIdle =>
      rw [replayCallbackDeviceWaitIdle_eq (hinv.finish _),
        State.finish_eq_settle, State.settle_settle]
      apply hcovered.settle
      intro e _ hP hcovers
      have hdevice := hcovers.2.2.2
      simp only [Bool.false_or, State.settle, Bool.false_eq_true, if_false,
        decide_eq_true_eq] at hP
      rw [hP.2.2] at hdevice
      simpa [eq_comm] using hdevice
  | beginCommandBuffer => exact (hcovered.cleanup hinv _).setCommandbuffer _ _ rfl rfl
  | resetCommandBuffer => exact hcovered.cleanup hinv _
  | freeCommandBuffers =>
      exact foldl_covered (fun _ c h hc => ⟨h.cleanup c, hc.cleanup h c⟩) _ hinv hcovered
  | resetCommandPool | destroyCommandPool => exact hcovered.preCommandPool hinv _

/-- **No command buffer is cleaned up while it executes**, in every run that loses track of
no execution. -/
theorem no_reuse_while_running {size : Nat} {queueDevice : Nat → Nat} {run : List Action}
    {final : State} (hexec : exec step (initial size queueDevice) run = some final)
    (hkeeps : Along step KeepsTrack (initial size queueDevice) run) : final.hazards = [] := by
  have hrun := exec_invariant
    (fun s a next (hinv : Inv s ∧ Covered s) (hkeeps : KeepsTrack s a) hstep =>
      ⟨Inv.step hinv.1 hstep, Covered.step hinv.2 hinv.1 hkeeps hstep⟩)
    ⟨inv_initial size queueDevice, covered_initial size queueDevice⟩ hkeeps hexec
  exact hrun.2.2

instance decidableKeepsTrack (s : State) : ∀ a, Decidable (KeepsTrack s a)
  | .queueSubmit queue submits fence true => inferInstanceAs
      (Decidable (∀ e ∈ (replayPreQueueSubmit s submits).running,
        e.commandbuffer ∈ submits.flatten → e.queue = queue ∧ (fence = none ∨ e.fence = fence)))
  | .resetFences fences true => inferInstanceAs
      (Decidable (∀ f ∈ fences, ∀ e ∈ s.running, e.fence ≠ some f))
  | .queueSubmit _ _ _ false | .resetFences _ false | .queueWaitIdle .. | .deviceWaitIdle ..
  | .createFence _ | .allocateCommandBuffer .. | .record .. | .waitForFences ..
  | .getFenceStatus .. | .beginCommandBuffer .. | .resetCommandBuffer ..
  | .freeCommandBuffers .. | .resetCommandPool .. | .destroyCommandPool .. => .isTrue trivial

/-- A command buffer for simultaneous use is submitted twice to one queue, and recorded
again. -/
def oneQueueRun : List Action :=
  [.createFence 0, .allocateCommandBuffer 1 0 0, .beginCommandBuffer 1 true,
    .queueSubmit 0 [[1]] (some 0) true, .queueSubmit 0 [[1]] none true,
    .beginCommandBuffer 1 true]

theorem no_reuse_while_running_oneQueue :
    ∃ final, exec step (initial 2 fun _ => 0) oneQueueRun = some final ∧
      final.hazards = [] := by
  have hrun : exec step (initial 2 fun _ => 0) oneQueueRun = some _ := rfl
  exact ⟨_, hrun, no_reuse_while_running hrun (by decide)⟩

/-- The same with two queues and a fence for each. -/
def twoQueuesRun : List Action :=
  [.createFence 0, .createFence 1, .allocateCommandBuffer 1 0 0, .beginCommandBuffer 1 true,
    .record 1 { scratchBuffers := [7] }, .queueSubmit 0 [[1]] (some 0) true,
    .queueSubmit 1 [[1]] (some 1) true, .beginCommandBuffer 1 true]

/-- Only the second fence is waited for, and the scratch buffers are destroyed while the
execution on the first queue may still run. -/
theorem reused_while_running :
    ∃ final, exec step (initial 2 fun _ => 0) twoQueuesRun = some final ∧
      final.hazards = [1] ∧ final.running = [⟨1, 0, some 0⟩] ∧
      (final.commandbuffers 1).recorded.scratchBuffers = [] :=
  ⟨_, rfl, by decide, by decide, by decide⟩

end PendingCommandbuffers
end Lavatube
