import Lavatube.Lib.Transition

/-!
# File descriptors of semaphores

A trace that exports a semaphore as a file descriptor records the number that the captured process
got.  The replay gets a number of its own, and keeps it under the recorded one in a map of the
semaphore that was exported.  An import has the recorded number; the replay looks through the maps
of all semaphores for it, in the order of their indices.

* `retraceGetSemaphoreFd`, `retraceImportSemaphoreFd` — an export and an import.
* `newestExport` — the last export that recorded a number, if no import took it since.
* `newest_held` — the map of its semaphore has it.
* `import_newest_iff` — when an import takes it.
-/

namespace Lavatube
namespace SemaphoreFds

open Transition

/-! ### The maps -/

/-- `replay_fd_map` of a `trackedsemaphore`: descriptors of the replay by their recorded numbers. -/
abbrev FdMap := Int → Option Int

/-- `replay_record_semaphore_fd`, with the index of the semaphore; `none` if it cannot be
resolved. -/
def replayRecordSemaphoreFd (semaphores : List FdMap) (semaphore : Option Nat)
    (recordedFd replayFd : Int) : Option (List FdMap) :=
  -- a call without a descriptor is not recorded
  if recordedFd < 0 ∨ replayFd < 0 then some semaphores
  else
    match semaphore with
    | none => none
    | some index =>
        if index < semaphores.length then
          some (semaphores.modify index fun map => Function.update map recordedFd (some replayFd))
        else
          none

/-- `replay_consume_semaphore_fd`: the descriptor that is found, and the maps without it. -/
def replayConsumeSemaphoreFd (recordedFd : Int) : List FdMap → Option (Int × List FdMap)
  | [] => none
  | map :: rest =>
      match map recordedFd with
      | none =>
          (replayConsumeSemaphoreFd recordedFd rest).map fun found => (found.1, map :: found.2)
      | some replayFd => some (replayFd, Function.update map recordedFd none :: rest)

/-! ### The calls -/

/-- `replay_semaphore_handle_type_uses_fd`: an opaque descriptor or that of a sync file. -/
def replaySemaphoreHandleTypeUsesFd (handleType : UInt32) : Bool :=
  handleType = 0x1 ∨ handleType = 0x10

/-- `VK_SUCCESS`. -/
def success : Int := 0

/-- `check_retval` aborts when a call fails that did not fail in the captured process. -/
def checkRetval (storedRetval retval : Int) : Bool :=
  ¬ (storedRetval = success ∧ retval ≠ success)

/-- `VkSemaphoreGetFdInfoKHR`; the semaphore is the index that its handle has. -/
structure SemaphoreGetFdInfo where
  semaphore : Option Nat
  handleType : UInt32
deriving DecidableEq, Repr

/-- A `vkGetSemaphoreFdKHR` in the trace, with what the replayed call returns. -/
structure GetSemaphoreFd where
  info : Option SemaphoreGetFdInfo
  storedRetval : Int
  /-- The number in the trace. -/
  recordedFd : Option Int
  retval : Int
  fd : Int
deriving DecidableEq, Repr

/-- `VkImportSemaphoreFdInfoKHR`. -/
structure ImportSemaphoreFdInfo where
  semaphore : Option Nat
  handleType : UInt32
  fd : Int
deriving DecidableEq, Repr

/-- A `vkImportSemaphoreFdKHR` in the trace, with the result of the call if it is replayed, and
whether a signal can be submitted for it. -/
structure ImportSemaphoreFd where
  info : Option ImportSemaphoreFdInfo
  storedRetval : Int
  retval : Int
  signals : Bool
deriving DecidableEq, Repr

/-- What the replay does for an import. -/
inductive ImportPath where
  /-- `wrap_vkImportSemaphoreFdKHR` is called. -/
  | replayed (info : Option ImportSemaphoreFdInfo)
  /-- `replay_signal_external_semaphore`. -/
  | signaled
  /-- The call failed in the captured process, and its descriptor is not known. -/
  | skipped
deriving DecidableEq, Repr

/-- `retrace_vkGetSemaphoreFdKHR` during replay; `none` is an abort. -/
def retraceGetSemaphoreFd (semaphores : List FdMap) (call : GetSemaphoreFd) :
    Option (List FdMap) :=
  if checkRetval call.storedRetval call.retval then
    match call.info, call.recordedFd with
    | some info, some recordedFd =>
        if call.retval = success ∧ replaySemaphoreHandleTypeUsesFd info.handleType then
          replayRecordSemaphoreFd semaphores info.semaphore recordedFd call.fd
        else
          some semaphores
    | _, _ => some semaphores
  else
    none

/-- The number that an import looks for. -/
def ImportSemaphoreFd.recordedFd (call : ImportSemaphoreFd) : Option Int :=
  match call.info with
  | some info =>
      if replaySemaphoreHandleTypeUsesFd info.handleType ∧ 0 ≤ info.fd then some info.fd else none
  | none => none

/-- The branches of `retrace_vkImportSemaphoreFdKHR` up to the call. -/
def importPath (semaphores : List FdMap) (call : ImportSemaphoreFd) : ImportPath × List FdMap :=
  match call.recordedFd with
  | some recordedFd =>
      match replayConsumeSemaphoreFd recordedFd semaphores with
      | some (replayFd, semaphores) =>
          (.replayed (call.info.map fun info => { info with fd := replayFd }), semaphores)
      | none => (if call.storedRetval ≠ success then .skipped else .signaled, semaphores)
  | none => (.replayed call.info, semaphores)

/-- `retrace_vkImportSemaphoreFdKHR` during replay; `none` is an abort. -/
def retraceImportSemaphoreFd (semaphores : List FdMap) (call : ImportSemaphoreFd) :
    Option (ImportPath × List FdMap) :=
  let result := importPath semaphores call
  match result.1 with
  | .replayed _ => if checkRetval call.storedRetval call.retval then some result else none
  | .signaled => if call.signals then some result else none
  | .skipped => some result

/-- A call of the trace. -/
inductive Call where
  | getFd (call : GetSemaphoreFd)
  | importFd (call : ImportSemaphoreFd)
deriving DecidableEq, Repr

/-- One call. -/
def step (semaphores : List FdMap) : Call → Option (List FdMap)
  | .getFd call => retraceGetSemaphoreFd semaphores call
  | .importFd call => (retraceImportSemaphoreFd semaphores call).map Prod.snd

/-- The maps when the trace is opened. -/
def initial (count : Nat) : List FdMap := List.replicate count fun _ => none

/-! ### The newest export -/

/-- An export: the semaphore, and the numbers in the trace and in the replay. -/
structure Export where
  semaphore : Nat
  recordedFd : Int
  replayFd : Int
deriving DecidableEq, Repr

/-- The export of a call that succeeds. -/
def GetSemaphoreFd.exported (call : GetSemaphoreFd) : Option Export :=
  match call.info, call.recordedFd with
  | some ⟨some semaphore, handleType⟩, some recordedFd =>
      if call.retval = success ∧ replaySemaphoreHandleTypeUsesFd handleType ∧ 0 ≤ recordedFd ∧
          0 ≤ call.fd then
        some ⟨semaphore, recordedFd, call.fd⟩
      else
        none
  | _, _ => none

/-- What one more call leaves of the newest export of a number. -/
def nextExport (n : Int) (newest : Option Export) : Call → Option Export
  | .getFd call =>
      match call.exported with
      | some e => if e.recordedFd = n then some e else newest
      | none => newest
  | .importFd call => if call.recordedFd = some n then none else newest

/-- The last export that recorded a number, unless the number was imported since. -/
def newestExport (n : Int) (calls : List Call) : Option Export := calls.foldl (nextExport n) none

/-- The call neither exports nor imports the number. -/
def Call.LeavesAlone (n : Int) : Call → Prop
  | .getFd call => ∀ e ∈ call.exported, e.recordedFd ≠ n
  | .importFd call => call.recordedFd ≠ some n

theorem nextExport_of_leavesAlone {n : Int} {call : Call} (hcall : call.LeavesAlone n)
    (newest : Option Export) : nextExport n newest call = newest := by
  cases call with
  | getFd call =>
      show (match call.exported with
        | some e => if e.recordedFd = n then some e else newest
        | none => newest) = newest
      cases hexported : call.exported with
      | none => rfl
      | some e => exact if_neg (hcall e hexported)
  | importFd call => exact if_neg hcall

theorem newestExport_snoc (n : Int) (calls : List Call) (call : Call) :
    newestExport n (calls ++ [call]) = nextExport n (newestExport n calls) call := by
  rw [newestExport, List.foldl_append]
  rfl

theorem newestExport_append_of_leavesAlone {n : Int} (calls : List Call) {after : List Call}
    (hafter : ∀ call ∈ after, call.LeavesAlone n) :
    newestExport n (calls ++ after) = newestExport n calls := by
  induction after using List.reverseRecOn with
  | nil => rw [List.append_nil]
  | append_singleton after call ih =>
      rw [← List.append_assoc, newestExport_snoc, nextExport_of_leavesAlone
        (hafter call (List.mem_append_right _ List.mem_cons_self))]
      exact ih fun other hother => hafter other (List.mem_append_left _ hother)

/-- **The newest export** recorded the number, and no call since exports or imports it. -/
theorem newestExport_eq_some_iff {n : Int} {calls : List Call} {e : Export} :
    newestExport n calls = some e ↔
      ∃ before call after, calls = before ++ Call.getFd call :: after ∧ call.exported = some e ∧
        e.recordedFd = n ∧ ∀ later ∈ after, later.LeavesAlone n := by
  constructor
  · intro hnewest
    induction calls using List.reverseRecOn with
    | nil => cases hnewest
    | append_singleton calls call ih =>
        rw [newestExport_snoc] at hnewest
        by_cases halone : call.LeavesAlone n
        · rw [nextExport_of_leavesAlone halone] at hnewest
          obtain ⟨before, found, after, rfl, hfound, hn, hafter⟩ := ih hnewest
          refine ⟨before, found, after ++ [call], by simp, hfound, hn, fun later hlater => ?_⟩
          rcases List.mem_append.mp hlater with hlater | hlater
          · exact hafter later hlater
          · exact List.mem_singleton.mp hlater ▸ halone
        · cases call with
          | getFd call =>
              unfold Call.LeavesAlone at halone
              push Not at halone
              obtain ⟨found, hfound, hn⟩ := halone
              simp only [nextExport, Option.mem_def.mp hfound, hn, if_true,
                Option.some.injEq] at hnewest
              subst hnewest
              exact ⟨calls, call, [], rfl, hfound, hn, by simp⟩
          | importFd call =>
              rw [nextExport, if_pos (not_not.mp halone)] at hnewest
              cases hnewest
  · rintro ⟨before, call, after, rfl, hcall, hn, hafter⟩
    rw [List.append_cons, newestExport_append_of_leavesAlone _ hafter, newestExport_snoc]
    simp [nextExport, hcall, hn]

/-! ### Looking through the maps -/

/-- The descriptor that a semaphore has under a number. -/
def held (semaphores : List FdMap) (index : Nat) (n : Int) : Option Int :=
  semaphores[index]?.bind fun map => map n

@[simp] theorem held_nil (index : Nat) (n : Int) : held [] index n = none := rfl

@[simp] theorem held_cons_zero (map : FdMap) (rest : List FdMap) (n : Int) :
    held (map :: rest) 0 n = map n := rfl

@[simp] theorem held_cons_succ (map : FdMap) (rest : List FdMap) (index : Nat) (n : Int) :
    held (map :: rest) (index + 1) n = held rest index n := rfl

@[simp] theorem held_initial (count index : Nat) (n : Int) :
    held (initial count) index n = none := by
  rw [held, initial, List.getElem?_replicate]
  split_ifs <;> rfl

/-- What a change of one map does. -/
theorem held_modify (semaphores : List FdMap) (index other : Nat) (key n : Int)
    (value : Option Int) :
    held (semaphores.modify index fun map => Function.update map key value) other n =
      if other = index ∧ n = key then semaphores[index]?.bind fun _ => value
      else held semaphores other n := by
  rw [held, held, List.getElem?_modify]
  by_cases hindex : index = other
  · subst hindex
    cases semaphores[index]? with
    | none => simp
    | some map => by_cases hn : n = key <;> simp [hn]
  · rw [if_neg fun h => hindex h.1.symm]
    simp [hindex]

theorem replayConsumeSemaphoreFd_eq_none_iff {n : Int} {semaphores : List FdMap} :
    replayConsumeSemaphoreFd n semaphores = none ↔ ∀ index, held semaphores index n = none := by
  induction semaphores with
  | nil => simp [replayConsumeSemaphoreFd]
  | cons map rest ih =>
      rw [replayConsumeSemaphoreFd, ← Nat.and_forall_add_one]
      cases hmap : map n with
      | none => simp [ih, hmap]
      | some replayFd => simp [hmap]

/-- **The first semaphore** that has the number is found. -/
theorem replayConsumeSemaphoreFd_eq_some_iff {n replayFd : Int} {semaphores next : List FdMap} :
    replayConsumeSemaphoreFd n semaphores = some (replayFd, next) ↔
      ∃ index, held semaphores index n = some replayFd ∧
        (∀ earlier < index, held semaphores earlier n = none) ∧
        next = semaphores.modify index fun map => Function.update map n none := by
  induction semaphores generalizing next with
  | nil => simp [replayConsumeSemaphoreFd]
  | cons map rest ih =>
      rw [replayConsumeSemaphoreFd]
      cases hmap : map n with
      | some found =>
          simp only [Option.some.injEq, Prod.mk.injEq]
          constructor
          · rintro ⟨rfl, rfl⟩
            exact ⟨0, hmap, by simp, rfl⟩
          · rintro ⟨index, hn, hearlier, rfl⟩
            cases index with
            | zero => exact ⟨Option.some.inj (hmap.symm.trans hn), rfl⟩
            | succ index =>
                have hnone := hearlier 0 (Nat.succ_pos index)
                rw [held_cons_zero, hmap] at hnone
                cases hnone
      | none =>
          simp only [Option.map_eq_some_iff, Prod.mk.injEq, Prod.exists]
          constructor
          · rintro ⟨found, rest', hrest, rfl, rfl⟩
            obtain ⟨index, hn, hearlier, rfl⟩ := ih.mp hrest
            refine ⟨index + 1, hn, fun earlier hlt => ?_, rfl⟩
            cases earlier with
            | zero => exact hmap
            | succ earlier => exact hearlier earlier (Nat.lt_of_succ_lt_succ hlt)
          · rintro ⟨index, hn, hearlier, rfl⟩
            cases index with
            | zero =>
                rw [held_cons_zero, hmap] at hn
                cases hn
            | succ index =>
                have hrest := ih.mpr ⟨index, hn, fun earlier hlt =>
                  hearlier (earlier + 1) (Nat.succ_lt_succ hlt), rfl⟩
                exact ⟨replayFd, _, hrest, rfl, rfl⟩

/-! ### What the calls do to the maps -/

/-- An export puts its descriptor in the map of its semaphore; another call to get a descriptor
changes nothing. -/
theorem retraceGetSemaphoreFd_eq_some {semaphores next : List FdMap} {call : GetSemaphoreFd}
    (hcall : retraceGetSemaphoreFd semaphores call = some next) :
    (call.exported = none ∧ next = semaphores) ∨
      ∃ e, call.exported = some e ∧ e.semaphore < semaphores.length ∧ e.replayFd = call.fd ∧
        next = semaphores.modify e.semaphore fun map =>
          Function.update map e.recordedFd (some e.replayFd) := by
  obtain ⟨info, storedRetval, recordedFd, retval, fd⟩ := call
  unfold retraceGetSemaphoreFd at hcall
  split_ifs at hcall
  cases info with
  | none =>
      cases hcall
      exact Or.inl ⟨rfl, rfl⟩
  | some info =>
      obtain ⟨semaphore, handleType⟩ := info
      cases recordedFd with
      | none =>
          cases hcall
          exact Or.inl ⟨by cases semaphore <;> rfl, rfl⟩
      | some recordedFd =>
          simp only at hcall
          split_ifs at hcall with hrecords
          · unfold replayRecordSemaphoreFd at hcall
            split_ifs at hcall with hnegative
            · cases hcall
              refine Or.inl ⟨?_, rfl⟩
              cases semaphore with
              | none => rfl
              | some semaphore =>
                  refine if_neg fun h => ?_
                  have hpositive : 0 ≤ recordedFd ∧ 0 ≤ fd := h.2.2
                  omega
            · cases semaphore with
              | none => cases hcall
              | some semaphore =>
                  simp only at hcall
                  split_ifs at hcall with hlt
                  cases hcall
                  have hpositive : 0 ≤ recordedFd ∧ 0 ≤ fd := by omega
                  refine Or.inr ⟨⟨semaphore, recordedFd, fd⟩, ?_, hlt, rfl, rfl⟩
                  exact if_pos ⟨hrecords.1, hrecords.2, hpositive⟩
          · cases hcall
            refine Or.inl ⟨?_, rfl⟩
            cases semaphore with
            | none => rfl
            | some semaphore => exact if_neg fun h => hrecords ⟨h.1, h.2.1⟩

theorem importPath_of_found {semaphores rest : List FdMap} {call : ImportSemaphoreFd}
    {n replayFd : Int} (hnumber : call.recordedFd = some n)
    (hfound : replayConsumeSemaphoreFd n semaphores = some (replayFd, rest)) :
    importPath semaphores call =
      (.replayed (call.info.map fun info => { info with fd := replayFd }), rest) := by
  simp [importPath, hnumber, hfound]

theorem importPath_of_missing {semaphores : List FdMap} {call : ImportSemaphoreFd} {n : Int}
    (hnumber : call.recordedFd = some n)
    (hfound : replayConsumeSemaphoreFd n semaphores = none) :
    importPath semaphores call =
      (if call.storedRetval ≠ success then .skipped else .signaled, semaphores) := by
  simp [importPath, hnumber, hfound]

/-- An import takes the number that it looks for out of the first map that has it. -/
theorem importPath_snd (semaphores : List FdMap) (call : ImportSemaphoreFd) :
    (importPath semaphores call).2 = semaphores ∨
      ∃ n index, call.recordedFd = some n ∧
        (importPath semaphores call).2 =
          semaphores.modify index fun map => Function.update map n none := by
  cases hnumber : call.recordedFd with
  | none => exact Or.inl (by simp [importPath, hnumber])
  | some n =>
      cases hfound : replayConsumeSemaphoreFd n semaphores with
      | none => exact Or.inl (congrArg Prod.snd (importPath_of_missing hnumber hfound))
      | some found =>
          obtain ⟨replayFd, next⟩ := found
          obtain ⟨index, -, -, rfl⟩ := replayConsumeSemaphoreFd_eq_some_iff.mp hfound
          exact Or.inr ⟨n, index, rfl, congrArg Prod.snd (importPath_of_found hnumber hfound)⟩

theorem retraceImportSemaphoreFd_eq_some {semaphores next : List FdMap}
    {call : ImportSemaphoreFd} {path : ImportPath}
    (hcall : retraceImportSemaphoreFd semaphores call = some (path, next)) :
    importPath semaphores call = (path, next) := by
  unfold retraceImportSemaphoreFd at hcall
  simp only at hcall
  split at hcall
  · split_ifs at hcall
    exact Option.some.inj hcall
  · split_ifs at hcall
    exact Option.some.inj hcall
  · exact Option.some.inj hcall

/-- The map of the semaphore with the newest export of a number has it. -/
def HoldsNewest (n : Int) (calls : List Call) (semaphores : List FdMap) : Prop :=
  ∀ e, newestExport n calls = some e → held semaphores e.semaphore n = some e.replayFd

/-- **One call** keeps this. -/
theorem HoldsNewest.step {n : Int} {trace : List Call} {semaphores next : List FdMap} {call : Call}
    (hholds : HoldsNewest n trace semaphores)
    (hcall : SemaphoreFds.step semaphores call = some next) :
    HoldsNewest n (trace ++ [call]) next := by
  intro e hnewest
  rw [newestExport_snoc] at hnewest
  cases call with
  | getFd call =>
      rcases retraceGetSemaphoreFd_eq_some hcall with ⟨hnone, rfl⟩ | ⟨made, hmade, hlt, -, rfl⟩
      · rw [nextExport, hnone] at hnewest
        exact hholds e hnewest
      · rw [held_modify]
        simp only [nextExport, hmade] at hnewest
        split_ifs at hnewest with hn
        · -- this export is now the newest one
          cases hnewest
          rw [if_pos ⟨rfl, hn.symm⟩, List.getElem?_eq_getElem hlt]
          rfl
        · rw [if_neg fun h => hn h.2.symm]
          exact hholds e hnewest
  | importFd call =>
      obtain ⟨result, himport, rfl⟩ := Option.map_eq_some_iff.mp hcall
      have hnext := congrArg Prod.snd (retraceImportSemaphoreFd_eq_some himport)
      -- there is a newest export left, so another number is imported
      simp only [nextExport] at hnewest
      split_ifs at hnewest with hn
      rcases importPath_snd semaphores call with hsame | ⟨m, index, hm, hmodified⟩
      · rw [← hnext, hsame]
        exact hholds e hnewest
      · have hother : ¬ (e.semaphore = index ∧ n = m) := fun h => hn (h.2 ▸ hm)
        rw [← hnext, hmodified, held_modify, if_neg hother]
        exact hholds e hnewest

/-- **The newest export** of a number is in the map of its semaphore. -/
theorem newest_held {count : Nat} {calls : List Call} {semaphores : List FdMap}
    (hrun : exec step (initial count) calls = some semaphores) {n : Int} {e : Export}
    (hnewest : newestExport n calls = some e) :
    held semaphores e.semaphore n = some e.replayFd := by
  have hinit : HoldsNewest n [] (initial count) := fun e he => by cases he
  exact exec_trace_invariant (fun _ _ _ _ hholds _ hcall => hholds.step hcall) hinit
    (along_true step _ calls) hrun e hnewest

/-! ### Imports -/

/-- A descriptor that the driver returns is open from then on, so it is none of those that the
replay still has. -/
def ReturnsNew (semaphores : List FdMap) : Call → Prop
  | .getFd call => ∀ index n, held semaphores index n ≠ some call.fd
  | .importFd _ => True

/-- No descriptor is held twice. -/
def HeldOnce (semaphores : List FdMap) : Prop :=
  ∀ index n other m replayFd, held semaphores index n = some replayFd →
    held semaphores other m = some replayFd → index = other ∧ n = m

theorem HeldOnce.taken {semaphores : List FdMap} (honce : HeldOnce semaphores) (index : Nat)
    (key : Int) :
    HeldOnce (semaphores.modify index fun map => Function.update map key none) := by
  intro i n j m replayFd hi hj
  have hleft : ∀ i n, held (semaphores.modify index fun map => Function.update map key none) i n =
      some replayFd → held semaphores i n = some replayFd := by
    intro i n hheld
    rw [held_modify] at hheld
    split_ifs at hheld
    · cases hsem : semaphores[index]? <;> simp [hsem] at hheld
    · exact hheld
  exact honce i n j m replayFd (hleft i n hi) (hleft j m hj)

theorem HeldOnce.added {semaphores : List FdMap} (honce : HeldOnce semaphores) (index : Nat)
    (key : Int) {replayFd : Int} (hnew : ∀ index n, held semaphores index n ≠ some replayFd) :
    HeldOnce (semaphores.modify index fun map => Function.update map key (some replayFd)) := by
  intro i n j m found hi hj
  have hmem : ∀ i n, held (semaphores.modify index fun map =>
      Function.update map key (some replayFd)) i n = some found →
      (i = index ∧ n = key ∧ found = replayFd) ∨
        (found ≠ replayFd ∧ held semaphores i n = some found) := by
    intro i n hheld
    rw [held_modify] at hheld
    split_ifs at hheld with hat
    · obtain ⟨map, -, heq⟩ := Option.bind_eq_some_iff.mp hheld
      exact Or.inl ⟨hat.1, hat.2, (Option.some.inj heq).symm⟩
    · exact Or.inr ⟨fun h => hnew i n (h ▸ hheld), hheld⟩
  rcases hmem i n hi with ⟨rfl, rfl, hfound⟩ | ⟨hfound, hi⟩
  · rcases hmem j m hj with ⟨rfl, rfl, -⟩ | ⟨hother, -⟩
    · exact ⟨rfl, rfl⟩
    · exact absurd hfound hother
  · rcases hmem j m hj with ⟨-, -, hsame⟩ | ⟨-, hj⟩
    · exact absurd hsame hfound
    · exact honce i n j m found hi hj

theorem heldOnce_of_run {count : Nat} {calls : List Call} {semaphores : List FdMap}
    (hnew : Along step ReturnsNew (initial count) calls)
    (hrun : exec step (initial count) calls = some semaphores) : HeldOnce semaphores := by
  refine exec_invariant (fun semaphores call next honce hnew hcall => ?_) ?_ hnew hrun
  · cases call with
    | getFd call =>
        rcases retraceGetSemaphoreFd_eq_some hcall with ⟨-, rfl⟩ | ⟨e, -, -, hfd, rfl⟩
        · exact honce
        · exact honce.added e.semaphore e.recordedFd (hfd ▸ hnew)
    | importFd call =>
        obtain ⟨result, himport, rfl⟩ := Option.map_eq_some_iff.mp hcall
        have hnext := congrArg Prod.snd (retraceImportSemaphoreFd_eq_some himport)
        rcases importPath_snd semaphores call with hsame | ⟨m, index, -, hmodified⟩
        · rw [← hnext, hsame]
          exact honce
        · rw [← hnext, hmodified]
          exact honce.taken index m
  · intro index n other m replayFd hheld
    rw [held_initial] at hheld
    cases hheld

/-- What an import is to do, given the newest export of its number: use the descriptor of the
export, and signal the semaphore if there is none.  A call that failed in the captured process is
not replayed without a descriptor. -/
def ImportSemaphoreFd.expected (call : ImportSemaphoreFd) (newest : Option Export) : ImportPath :=
  match newest with
  | some e => .replayed (call.info.map fun info => { info with fd := e.replayFd })
  | none => if call.storedRetval ≠ success then .skipped else .signaled

/-- No semaphore in front of the one with the newest export has the number, and no semaphore at all
has it without an export. -/
def NewestFirst (semaphores : List FdMap) (n : Int) (newest : Option Export) : Prop :=
  match newest with
  | some e => ∀ earlier < e.semaphore, held semaphores earlier n = none
  | none => ∀ index, held semaphores index n = none

theorem isSome_info {call : ImportSemaphoreFd} {n : Int} (hnumber : call.recordedFd = some n) :
    call.info.isSome := by
  unfold ImportSemaphoreFd.recordedFd at hnumber
  cases hinfo : call.info with
  | none => simp [hinfo] at hnumber
  | some info => rfl

theorem import_eq_replayed_iff {info : Option ImportSemaphoreFdInfo} {replayFd other : Int}
    (hinfo : info.isSome) :
    ImportPath.replayed (info.map fun info => { info with fd := replayFd }) =
      .replayed (info.map fun info => { info with fd := other }) ↔ replayFd = other := by
  obtain ⟨info, rfl⟩ := Option.isSome_iff_exists.mp hinfo
  simp

section

variable {count : Nat} {before : List Call} {semaphores : List FdMap} {call : ImportSemaphoreFd}
variable {n : Int}

/-- An import of a number that was not exported, or was imported since. -/
theorem import_without_export (hnumber : call.recordedFd = some n) :
    (importPath semaphores call).1 = call.expected none ↔ NewestFirst semaphores n none := by
  cases hfound : replayConsumeSemaphoreFd n semaphores with
  | none =>
      rw [importPath_of_missing hnumber hfound]
      exact iff_of_true rfl (replayConsumeSemaphoreFd_eq_none_iff.mp hfound)
  | some found =>
      obtain ⟨replayFd, rest⟩ := found
      rw [importPath_of_found hnumber hfound]
      obtain ⟨index, hheld, -, -⟩ := replayConsumeSemaphoreFd_eq_some_iff.mp hfound
      refine iff_of_false (fun hexpected => ?_) fun hnone => ?_
      · simp only [ImportSemaphoreFd.expected] at hexpected
        split_ifs at hexpected
      · rw [hnone index] at hheld
        cases hheld

/-- An import of a number with a newest export: a descriptor is found in any case, in the map of the
exported semaphore or in one in front of it. -/
theorem import_of_export (hrun : exec step (initial count) before = some semaphores)
    (hnumber : call.recordedFd = some n) {e : Export} (hnewest : newestExport n before = some e) :
    ∃ index replayFd, held semaphores index n = some replayFd ∧
      (∀ earlier < index, held semaphores earlier n = none) ∧ index ≤ e.semaphore ∧
      ((importPath semaphores call).1 = call.expected (some e) ↔ replayFd = e.replayFd) := by
  have hheld := newest_held hrun hnewest
  cases hfound : replayConsumeSemaphoreFd n semaphores with
  | none =>
      rw [replayConsumeSemaphoreFd_eq_none_iff.mp hfound] at hheld
      cases hheld
  | some found =>
      obtain ⟨replayFd, rest⟩ := found
      obtain ⟨index, hindex, hearlier, -⟩ := replayConsumeSemaphoreFd_eq_some_iff.mp hfound
      refine ⟨index, replayFd, hindex, hearlier, ?_, ?_⟩
      · by_contra hlt
        rw [hearlier e.semaphore (Nat.lt_of_not_le hlt)] at hheld
        cases hheld
      · rw [importPath_of_found hnumber hfound]
        exact import_eq_replayed_iff (isSome_info hnumber)

end

/-- **Imports.**  An import of a number uses the descriptor of the newest export of the number, and
the other path without one, if no semaphore in front of the exported one, and no semaphore at all
without an export, still has the number.  As the driver returns new descriptors, there is no other
case. -/
theorem import_newest_iff {count : Nat} {before : List Call} {semaphores next : List FdMap}
    {call : ImportSemaphoreFd} {path : ImportPath} {n : Int}
    (hrun : exec step (initial count) before = some semaphores)
    (hnumber : call.recordedFd = some n)
    (hcall : retraceImportSemaphoreFd semaphores call = some (path, next)) :
    (NewestFirst semaphores n (newestExport n before) →
        path = call.expected (newestExport n before)) ∧
      (Along step ReturnsNew (initial count) before →
        path = call.expected (newestExport n before) →
        NewestFirst semaphores n (newestExport n before)) := by
  obtain rfl : (importPath semaphores call).1 = path :=
    congrArg Prod.fst (retraceImportSemaphoreFd_eq_some hcall)
  cases hnewest : newestExport n before with
  | none =>
      have hiff := @import_without_export semaphores call n hnumber
      exact ⟨hiff.mpr, fun _ => hiff.mp⟩
  | some e =>
      have hheld := newest_held hrun hnewest
      obtain ⟨index, replayFd, hindex, hearlier, hle, hexpected⟩ :=
        import_of_export hrun hnumber hnewest
      rw [hexpected]
      constructor
      · intro hfirst
        have hsame : index = e.semaphore := by
          refine hle.antisymm (Nat.le_of_not_lt fun hlt => ?_)
          rw [hfirst index hlt] at hindex
          cases hindex
        rw [hsame, hheld] at hindex
        exact (Option.some.inj hindex).symm
      · -- the driver returned different descriptors, so this one is in one map only
        intro hnew hsame
        have honce := heldOnce_of_run hnew hrun
        obtain ⟨rfl, -⟩ := honce index n e.semaphore n e.replayFd (hsame ▸ hindex) hheld
        exact hearlier

/-- An export of a semaphore that recorded the number 5. -/
def exportFive (semaphore : Nat) (replayFd : Int) : GetSemaphoreFd where
  info := some ⟨some semaphore, 0x10⟩
  storedRetval := success
  recordedFd := some 5
  retval := success
  fd := replayFd

/-- An import of the number 5. -/
def importFive : ImportSemaphoreFd where
  info := some ⟨some 0, 0x10, 5⟩
  storedRetval := success
  retval := success
  signals := true

/-- The second semaphore has been exported twice, and the first one in between with another number:
the import uses what the last export returned. -/
theorem import_newest_after_exports :
    ImportPath.replayed (some ⟨some 0, 0x10, 12⟩) = importFive.expected (newestExport 5
      [.getFd (exportFive 1 10), .getFd { exportFive 0 11 with recordedFd := some 6 },
        .getFd (exportFive 1 12)]) := by
  have hright := import_newest_iff (rfl : exec step (initial 2)
      [.getFd (exportFive 1 10), .getFd { exportFive 0 11 with recordedFd := some 6 },
        .getFd (exportFive 1 12)] = some _)
    (rfl : importFive.recordedFd = some 5) rfl
  refine hright.1 fun earlier hlt => ?_
  obtain rfl : earlier = 0 := Nat.lt_one_iff.mp hlt
  rfl

/-- The captured process closes the descriptor 5 of the first semaphore and gets the number again
for the second one; the import uses what the first export returned. -/
theorem closed_descriptor_imported :
    ∃ semaphores next,
      exec step (initial 2) [.getFd (exportFive 0 10), .getFd (exportFive 1 11)] =
        some semaphores ∧
      retraceImportSemaphoreFd semaphores importFive =
        some (.replayed (some ⟨some 0, 0x10, 10⟩), next) ∧
      importFive.expected
          (newestExport 5 [.getFd (exportFive 0 10), .getFd (exportFive 1 11)]) =
        .replayed (some ⟨some 0, 0x10, 11⟩) :=
  ⟨_, _, rfl, rfl, by decide⟩

end SemaphoreFds
end Lavatube
