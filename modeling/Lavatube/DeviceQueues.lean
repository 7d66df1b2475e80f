import Mathlib.Tactic

/-!
# The queues of a device

The captured device may have had other queue families than the one that replays.  When the device is
created, the replay changes the list of requested queues; when a queue is fetched, it changes the
family and the index again, by rules of its own.  In a structure the reader puts the selected family
for the virtual one before; a family that is a parameter of its own it reads as it is.

* `ReplayDevice` — the queue families that are there, one of which is selected.
* `readQueueFamilyIndex` — a family in a structure.
* `replayPreCreateDevice`, `requestedQueues` — the queues that are requested.
* `retraceGetDeviceQueue`, `retraceGetDeviceQueue2` — the queue that is fetched.
* `queues_right_iff` — when each fetched queue was requested.
-/

namespace Lavatube
namespace DeviceQueues

/-- `VkQueueFamilyProperties`, as far as it is used. -/
structure QueueFamilyProperties where
  queueFlags : Nat
  queueCount : Nat
deriving DecidableEq, Repr

/-- The family can do graphics, compute and transfers. -/
def QueueFamilyProperties.isUniversal (properties : QueueFamilyProperties) : Bool :=
  properties.queueFlags &&& 1 ≠ 0 ∧ properties.queueFlags &&& 2 ≠ 0 ∧
    properties.queueFlags &&& 4 ≠ 0

/-- The loop over the families in `replay_initialize_vkCreateDevice`: the last one stays. -/
def selectLoop (selected : Nat) : Nat → List QueueFamilyProperties → Nat
  | _, [] => selected
  | i, properties :: rest =>
      selectLoop (if properties.isUniversal then i else selected) (i + 1) rest

theorem selectLoop_eq_or_lt (selected i : Nat) (families : List QueueFamilyProperties) :
    selectLoop selected i families = selected ∨
      selectLoop selected i families < i + families.length := by
  induction families generalizing selected i with
  | nil => exact Or.inl rfl
  | cons properties rest ih =>
      unfold selectLoop
      rw [List.length_cons]
      rcases ih (if properties.isUniversal then i else selected) (i + 1) with hsame | hlt
      · rw [hsame]
        split_ifs
        · exact Or.inr (by omega)
        · exact Or.inl rfl
      · exact Or.inr (by omega)

/-- `device_VkQueueFamilyProperties` and `selected_queue_family_index`. -/
structure ReplayDevice where
  families : List QueueFamilyProperties
  selected : Nat
  selected_lt : selected < families.length
deriving DecidableEq, Repr

/-- The end of `replay_initialize_vkCreateDevice`; `none` is an abort. -/
def ReplayDevice.initialize (families : List QueueFamilyProperties) : Option ReplayDevice :=
  if hselected : selectLoop 0xdeadbeef 0 families = 0xdeadbeef then none
  else
    some
      { families := families
        selected := selectLoop 0xdeadbeef 0 families
        selected_lt := by
          have hcases := selectLoop_eq_or_lt 0xdeadbeef 0 families
          rw [Nat.zero_add] at hcases
          exact hcases.resolve_left hselected }

/-- The number of queues of the selected family. -/
def ReplayDevice.selectedCount (device : ReplayDevice) : Nat :=
  (device.families.get ⟨device.selected, device.selected_lt⟩).queueCount

/-- `LAVATUBE_VIRTUAL_QUEUE`. -/
def virtualQueue : Nat := 0xbeefbeef

/-- `VkDeviceQueueCreateInfo`; a priority is given by its bits. -/
structure DeviceQueueCreateInfo where
  queueFamilyIndex : Nat
  queueCount : Nat
  pQueuePriorities : Option (List Nat) := none
deriving DecidableEq, Repr

/-- A `queueFamilyIndex` in a structure, as the generated readers load it for a replay.  The family
was selected while the first parameter of `vkCreateDevice` was read. -/
def readQueueFamilyIndex (device : ReplayDevice) (queueFamilyIndex : Nat) : Nat :=
  if queueFamilyIndex = virtualQueue then device.selected else queueFamilyIndex

/-- `read_VkDeviceQueueCreateInfo`. -/
def readDeviceQueueCreateInfo (device : ReplayDevice) (info : DeviceQueueCreateInfo) :
    DeviceQueueCreateInfo :=
  { info with queueFamilyIndex := readQueueFamilyIndex device info.queueFamilyIndex }

/-- `collapse_queue_families`: there are more requests than families, or one for a family that is
not there. -/
def collapseQueueFamilies (device : ReplayDevice) (infos : List DeviceQueueCreateInfo) : Bool :=
  device.families.length < infos.length ∨
    ∃ info ∈ infos, device.families.length ≤ info.queueFamilyIndex

/-- One round of the loop that fills `queueinfo`. -/
def limitQueueInfo (device : ReplayDevice) (moves : Bool) (info : DeviceQueueCreateInfo) :
    DeviceQueueCreateInfo :=
  let moved :=
    if moves ∧ info.queueFamilyIndex ≠ device.selected then
      { info with queueFamilyIndex := device.selected }
    else
      info
  if moved.queueFamilyIndex = device.selected ∧ moved.queueCount > device.selectedCount then
    { moved with queueCount := device.selectedCount }
  else
    moved

/-- The priority of the one queue that is left; otherwise it is 1.0. -/
def collapsedPriority (first : DeviceQueueCreateInfo) : Nat :=
  match first.pQueuePriorities with
  | some (priority :: _) => if first.queueCount > 0 then priority else 0x3f800000
  | _ => 0x3f800000

/-- The queues in `replay_pre_vkCreateDevice`, from the requests that were read. -/
def replayPreCreateDevice (device : ReplayDevice) (infos : List DeviceQueueCreateInfo) :
    List DeviceQueueCreateInfo :=
  let collapse := collapseQueueFamilies device infos
  -- a single request is moved to the selected family in any case
  let queueinfo := infos.map (limitQueueInfo device (infos.length = 1 ∨ collapse))
  match queueinfo with
  | first :: _ :: _ =>
      if collapse then [⟨device.selected, 1, some [collapsedPriority first]⟩] else queueinfo
  | _ => queueinfo

/-- The queues that `retrace_vkCreateDevice` requests. -/
def requestedQueues (device : ReplayDevice) (infos : List DeviceQueueCreateInfo) :
    List DeviceQueueCreateInfo :=
  replayPreCreateDevice device (infos.map (readDeviceQueueCreateInfo device))

/-- `VkDeviceQueueInfo2`. -/
structure DeviceQueueInfo2 where
  queueFamilyIndex : Nat
  queueIndex : Nat
deriving DecidableEq, Repr

/-- The family and the index that are passed to the driver. -/
def realQueue (device : ReplayDevice) (info : DeviceQueueInfo2) : DeviceQueueInfo2 :=
  if info.queueFamilyIndex = virtualQueue then
    -- virtual queues are all one real queue
    let queueIndex := if info.queueIndex > 0 then 0 else info.queueIndex
    ⟨device.selected, if queueIndex ≥ device.selectedCount then 0 else queueIndex⟩
  else if info.queueFamilyIndex ≥ device.families.length then
    -- the index is kept
    { info with queueFamilyIndex := device.selected }
  else
    info

/-- `retrace_vkGetDeviceQueue` up to the call. -/
def retraceGetDeviceQueue (device : ReplayDevice) (queueFamilyIndex queueIndex : Nat) :
    DeviceQueueInfo2 := realQueue device ⟨queueFamilyIndex, queueIndex⟩

/-- `read_VkDeviceQueueInfo2`. -/
def readDeviceQueueInfo2 (device : ReplayDevice) (info : DeviceQueueInfo2) : DeviceQueueInfo2 :=
  { info with queueFamilyIndex := readQueueFamilyIndex device info.queueFamilyIndex }

/-- `retrace_vkGetDeviceQueue2` up to the call. -/
def retraceGetDeviceQueue2 (device : ReplayDevice) (info : DeviceQueueInfo2) : DeviceQueueInfo2 :=
  realQueue device (readDeviceQueueInfo2 device info)

/-! ### What is requested -/

/-- A queue is covered by the requests. -/
def Created (infos : List DeviceQueueCreateInfo) (queue : DeviceQueueInfo2) : Prop :=
  ∃ info ∈ infos, info.queueFamilyIndex = queue.queueFamilyIndex ∧
    queue.queueIndex < info.queueCount

/-- The requests are possible: there are the families, each is there once, and it has the queues. -/
structure Possible (device : ReplayDevice) (infos : List DeviceQueueCreateInfo) : Prop where
  exist : ∀ info ∈ infos, info.queueFamilyIndex < device.families.length
  once : (infos.map DeviceQueueCreateInfo.queueFamilyIndex).Nodup
  counts : ∀ info ∈ infos, ∀ properties ∈ device.families[info.queueFamilyIndex]?,
    info.queueCount ≤ properties.queueCount

/-- Each queue that the captured process could fetch was requested, and that was possible. -/
structure QueuesRight (device : ReplayDevice) (infos : List DeviceQueueCreateInfo) : Prop where
  fetched : ∀ info ∈ infos, ∀ queueIndex < info.queueCount,
    Created (requestedQueues device infos)
      (retraceGetDeviceQueue device info.queueFamilyIndex queueIndex)
  fetched2 : ∀ info ∈ infos, ∀ queueIndex < info.queueCount,
    Created (requestedQueues device infos)
      (retraceGetDeviceQueue2 device ⟨info.queueFamilyIndex, queueIndex⟩)
  possible : Possible device (requestedQueues device infos)

theorem getElem?_selected (device : ReplayDevice) :
    device.families[device.selected]? =
      some (device.families.get ⟨device.selected, device.selected_lt⟩) :=
  List.getElem?_eq_getElem device.selected_lt

theorem realQueue_virtual {device : ReplayDevice} {queueIndex : Nat} :
    realQueue device ⟨virtualQueue, queueIndex⟩ = ⟨device.selected, 0⟩ := by
  unfold realQueue
  rw [if_pos rfl]
  simp only [DeviceQueueInfo2.mk.injEq, true_and]
  split_ifs <;> omega

theorem realQueue_unknown {device : ReplayDevice} {family queueIndex : Nat}
    (hvirtual : family ≠ virtualQueue) (hunknown : device.families.length ≤ family) :
    realQueue device ⟨family, queueIndex⟩ = ⟨device.selected, queueIndex⟩ := by
  rw [realQueue, if_neg hvirtual, if_pos hunknown]

theorem realQueue_known {device : ReplayDevice} {family queueIndex : Nat}
    (hvirtual : family ≠ virtualQueue) (hknown : family < device.families.length) :
    realQueue device ⟨family, queueIndex⟩ = ⟨family, queueIndex⟩ := by
  rw [realQueue, if_neg hvirtual, if_neg (Nat.not_le.mpr hknown)]

theorem limitQueueInfo_moved (device : ReplayDevice) (info : DeviceQueueCreateInfo) :
    limitQueueInfo device true info =
      { info with
        queueFamilyIndex := device.selected
        queueCount := min info.queueCount device.selectedCount } := by
  obtain ⟨family, count, priorities⟩ := info
  unfold limitQueueInfo
  by_cases hfamily : family = device.selected
  · by_cases hcount : count > device.selectedCount
    · simp [hfamily, hcount, Nat.min_eq_right (Nat.le_of_lt hcount)]
    · simp [hfamily, hcount, Nat.min_eq_left (Nat.not_lt.mp hcount)]
  · by_cases hcount : count > device.selectedCount
    · simp [hfamily, hcount, Nat.min_eq_right (Nat.le_of_lt hcount)]
    · simp [hfamily, hcount, Nat.min_eq_left (Nat.not_lt.mp hcount)]

theorem limitQueueInfo_kept (device : ReplayDevice) (info : DeviceQueueCreateInfo) :
    limitQueueInfo device false info =
      { info with
        queueCount := if info.queueFamilyIndex = device.selected then
          min info.queueCount device.selectedCount else info.queueCount } := by
  obtain ⟨family, count, priorities⟩ := info
  unfold limitQueueInfo
  by_cases hfamily : family = device.selected
  · by_cases hcount : count > device.selectedCount
    · simp [hfamily, hcount, Nat.min_eq_right (Nat.le_of_lt hcount)]
    · simp [hfamily, hcount, Nat.min_eq_left (Nat.not_lt.mp hcount)]
  · simp [hfamily]

/-- One queue family is requested for all. -/
theorem replayPreCreateDevice_single (device : ReplayDevice) (info : DeviceQueueCreateInfo) :
    replayPreCreateDevice device [info] =
      [{ info with
         queueFamilyIndex := device.selected
         queueCount := min info.queueCount device.selectedCount }] := by
  simp [replayPreCreateDevice, limitQueueInfo_moved]

theorem replayPreCreateDevice_collapsed {device : ReplayDevice}
    {first second : DeviceQueueCreateInfo} {rest : List DeviceQueueCreateInfo}
    (hcollapse : collapseQueueFamilies device (first :: second :: rest) = true) :
    ∃ priorities, replayPreCreateDevice device (first :: second :: rest) =
      [⟨device.selected, 1, priorities⟩] := by
  simp [replayPreCreateDevice, hcollapse]

theorem replayPreCreateDevice_kept {device : ReplayDevice} {infos : List DeviceQueueCreateInfo}
    (hlength : infos.length ≠ 1) (hcollapse : collapseQueueFamilies device infos = false) :
    replayPreCreateDevice device infos = infos.map (limitQueueInfo device false) := by
  unfold replayPreCreateDevice
  simp only [hcollapse, hlength, or_false, decide_false, Bool.false_eq_true, if_false]
  split <;> rfl

/-! ### What is fetched -/

section Fetched

variable {device : ReplayDevice} {infos : List DeviceQueueCreateInfo}
variable {info : DeviceQueueCreateInfo}

/-- The family that a queue is fetched from. -/
def fetchedFamily (device : ReplayDevice) (queueFamilyIndex : Nat) : Nat :=
  if readQueueFamilyIndex device queueFamilyIndex < device.families.length then
    readQueueFamilyIndex device queueFamilyIndex
  else
    device.selected

/-- How many queues of that family are fetched.  `vkGetDeviceQueue2` keeps the index of a virtual
queue, unless the family that was put for it has the number of the virtual one. -/
def fetchedCount (device : ReplayDevice) (info : DeviceQueueCreateInfo) : Nat :=
  if info.queueFamilyIndex = virtualQueue ∧ device.selected = virtualQueue then
    min info.queueCount 1
  else
    info.queueCount

theorem fetchedCount_le : fetchedCount device info ≤ info.queueCount := by
  unfold fetchedCount
  split_ifs
  · exact Nat.min_le_left _ _
  · exact le_rfl

theorem retraceGetDeviceQueue_eq (family queueIndex : Nat) :
    retraceGetDeviceQueue device family queueIndex =
      ⟨fetchedFamily device family, if family = virtualQueue then 0 else queueIndex⟩ := by
  unfold retraceGetDeviceQueue fetchedFamily readQueueFamilyIndex
  by_cases hvirtual : family = virtualQueue
  · rw [if_pos hvirtual, if_pos hvirtual, if_pos device.selected_lt, hvirtual, realQueue_virtual]
  · rw [if_neg hvirtual, if_neg hvirtual]
    by_cases hknown : family < device.families.length
    · rw [if_pos hknown, realQueue_known hvirtual hknown]
    · rw [if_neg hknown, realQueue_unknown hvirtual (Nat.not_lt.mp hknown)]

theorem retraceGetDeviceQueue2_eq (family queueIndex : Nat) :
    retraceGetDeviceQueue2 device ⟨family, queueIndex⟩ =
      ⟨fetchedFamily device family,
        if family = virtualQueue ∧ device.selected = virtualQueue then 0 else queueIndex⟩ := by
  unfold retraceGetDeviceQueue2 readDeviceQueueInfo2 fetchedFamily readQueueFamilyIndex
  by_cases hvirtual : family = virtualQueue
  · simp only [hvirtual, if_true, true_and, if_pos device.selected_lt]
    by_cases hselected : device.selected = virtualQueue
    · rw [if_pos hselected, hselected, realQueue_virtual, hselected]
    · rw [if_neg hselected, realQueue_known hselected device.selected_lt]
  · simp only [hvirtual, if_false, false_and]
    by_cases hknown : family < device.families.length
    · rw [if_pos hknown, realQueue_known hvirtual hknown]
    · rw [if_neg hknown, realQueue_unknown hvirtual (Nat.not_lt.mp hknown)]

/-- A queue in front of a requested one was requested. -/
theorem Created.of_le {family queueIndex smaller : Nat} (h : Created infos ⟨family, queueIndex⟩)
    (hle : smaller ≤ queueIndex) : Created infos ⟨family, smaller⟩ := by
  obtain ⟨info, hinfo, hfamily, hlt⟩ := h
  exact ⟨info, hinfo, hfamily, lt_of_le_of_lt hle hlt⟩

/-- The queues that both calls fetch for a request. -/
theorem fetched_iff {created : List DeviceQueueCreateInfo} :
    ((∀ queueIndex < info.queueCount,
        Created created (retraceGetDeviceQueue device info.queueFamilyIndex queueIndex)) ∧
      ∀ queueIndex < info.queueCount,
        Created created (retraceGetDeviceQueue2 device ⟨info.queueFamilyIndex, queueIndex⟩)) ↔
      ∀ queueIndex < fetchedCount device info,
        Created created ⟨fetchedFamily device info.queueFamilyIndex, queueIndex⟩ := by
  simp only [retraceGetDeviceQueue_eq, retraceGetDeviceQueue2_eq]
  unfold fetchedCount
  by_cases hboth : info.queueFamilyIndex = virtualQueue ∧ device.selected = virtualQueue
  · simp only [hboth, and_self, if_true]
    constructor
    · intro hfirst queueIndex hlt
      obtain rfl : queueIndex = 0 := by omega
      exact hfirst 0 (by omega)
    · exact fun hone queueIndex hlt => hone 0 (by omega)
  · simp only [hboth, if_false]
    constructor
    · exact fun h => h.2
    · refine fun hall => ⟨fun queueIndex hlt => ?_, hall⟩
      refine (hall queueIndex hlt).of_le ?_
      split_ifs
      · exact Nat.zero_le _
      · exact le_rfl

/-- The queues of all requests. -/
theorem queuesRight_iff_fetched : QueuesRight device infos ↔
    Possible device (requestedQueues device infos) ∧
      ∀ info ∈ infos, ∀ queueIndex < fetchedCount device info,
        Created (requestedQueues device infos)
          ⟨fetchedFamily device info.queueFamilyIndex, queueIndex⟩ := by
  constructor
  · exact fun h => ⟨h.possible, fun info hinfo =>
      fetched_iff.mp ⟨h.fetched info hinfo, h.fetched2 info hinfo⟩⟩
  · exact fun h => ⟨fun info hinfo => (fetched_iff.mpr (h.2 info hinfo)).1,
      fun info hinfo => (fetched_iff.mpr (h.2 info hinfo)).2, h.1⟩

/-! ### One family for all -/

/-- All queues of the request are among the first ones of the selected family; `room` is how many of
these there are. -/
def OneFamilyServes (device : ReplayDevice) (room : Nat) (info : DeviceQueueCreateInfo) : Prop :=
  info.queueCount = 0 ∨
    fetchedFamily device info.queueFamilyIndex = device.selected ∧ fetchedCount device info ≤ room

theorem fetchedCount_eq_zero : fetchedCount device info = 0 ↔ info.queueCount = 0 := by
  unfold fetchedCount
  split_ifs
  · omega
  · exact Iff.rfl

theorem fetched_one_iff {room : Nat} {priorities : Option (List Nat)} :
    (∀ queueIndex < fetchedCount device info,
      Created [⟨device.selected, room, priorities⟩]
        ⟨fetchedFamily device info.queueFamilyIndex, queueIndex⟩) ↔
      OneFamilyServes device room info := by
  unfold OneFamilyServes
  rw [← @fetchedCount_eq_zero device info]
  simp only [Created, List.mem_singleton, exists_eq_left]
  constructor
  · intro h
    rcases Nat.eq_zero_or_pos (fetchedCount device info) with hzero | hpos
    · exact Or.inl hzero
    · have hlast := (h (fetchedCount device info - 1) (by omega)).2
      exact Or.inr ⟨(h 0 hpos).1.symm, by omega⟩
  · rintro (hzero | ⟨hfamily, hroom⟩) queueIndex hlt
    · omega
    · exact ⟨hfamily.symm, by omega⟩

theorem possible_one_iff {room : Nat} {priorities : Option (List Nat)} :
    Possible device [⟨device.selected, room, priorities⟩] ↔ room ≤ device.selectedCount := by
  constructor
  · intro h
    exact h.counts _ List.mem_cons_self _ (getElem?_selected device)
  · intro hroom
    refine ⟨fun info hinfo => ?_, List.nodup_singleton _, fun info hinfo properties hp => ?_⟩
    · rw [List.mem_singleton.mp hinfo]
      exact device.selected_lt
    · rw [List.mem_singleton.mp hinfo] at hp ⊢
      rw [getElem?_selected] at hp
      cases hp
      exact hroom

theorem queues_right_single_iff :
    QueuesRight device [info] ↔ OneFamilyServes device device.selectedCount info := by
  have hcreate : requestedQueues device [info] = [⟨device.selected,
      min info.queueCount device.selectedCount, info.pQueuePriorities⟩] :=
    replayPreCreateDevice_single device (readDeviceQueueCreateInfo device info)
  have hroom : OneFamilyServes device (min info.queueCount device.selectedCount) info ↔
      OneFamilyServes device device.selectedCount info := by
    unfold OneFamilyServes
    rw [Nat.le_min, and_iff_right fetchedCount_le]
  rw [queuesRight_iff_fetched, hcreate, and_iff_right (possible_one_iff.mpr (Nat.min_le_right _ _)),
    ← hroom, List.forall_mem_singleton]
  exact fetched_one_iff

theorem queues_right_collapsed_iff {first second : DeviceQueueCreateInfo}
    {rest : List DeviceQueueCreateInfo}
    (hcollapse : collapseQueueFamilies device
      ((first :: second :: rest).map (readDeviceQueueCreateInfo device)) = true) :
    QueuesRight device (first :: second :: rest) ↔
      0 < device.selectedCount ∧
        ∀ info ∈ first :: second :: rest, OneFamilyServes device 1 info := by
  obtain ⟨priorities, hcreate⟩ := replayPreCreateDevice_collapsed hcollapse
  have hrequested : requestedQueues device (first :: second :: rest) =
    [⟨device.selected, 1, priorities⟩] := hcreate
  rw [queuesRight_iff_fetched, hrequested, possible_one_iff]
  exact and_congr Iff.rfl (forall₂_congr fun info _ => fetched_one_iff)

/-! ### The families are kept -/

/-- The queues of the request are there. -/
def KeptServes (device : ReplayDevice) (info : DeviceQueueCreateInfo) : Prop :=
  ∀ properties ∈ device.families[fetchedFamily device info.queueFamilyIndex]?,
    fetchedCount device info ≤ properties.queueCount

/-- **When the queues are right**, as a condition on the captured requests. -/
def Served (device : ReplayDevice) : List DeviceQueueCreateInfo → Prop
  | [info] => OneFamilyServes device device.selectedCount info
  | infos =>
      if collapseQueueFamilies device (infos.map (readDeviceQueueCreateInfo device)) then
        0 < device.selectedCount ∧ ∀ info ∈ infos, OneFamilyServes device 1 info
      else
        (infos.map fun info => readQueueFamilyIndex device info.queueFamilyIndex).Nodup ∧
          ∀ info ∈ infos, KeptServes device info

/-- Where the families are kept, a queue is covered by the request for its family. -/
theorem created_kept_iff {queue : DeviceQueueInfo2} :
    Created (infos.map (limitQueueInfo device false)) queue ↔
      ∃ info ∈ infos, info.queueFamilyIndex = queue.queueFamilyIndex ∧
        queue.queueIndex < info.queueCount ∧
        (info.queueFamilyIndex = device.selected → queue.queueIndex < device.selectedCount) := by
  simp only [Created, List.mem_map, limitQueueInfo_kept, exists_exists_and_eq_and]
  refine exists_congr fun info => and_congr_right fun _ => and_congr_right fun _ => ?_
  split_ifs with hselected
  · simp [hselected]
  · simp [hselected]

theorem map_family_kept :
    (infos.map (limitQueueInfo device false)).map DeviceQueueCreateInfo.queueFamilyIndex =
      infos.map DeviceQueueCreateInfo.queueFamilyIndex := by
  rw [List.map_map]
  exact List.map_congr_left fun info _ => by
    rw [Function.comp_apply, limitQueueInfo_kept]

theorem families_known (hcollapse : collapseQueueFamilies device infos = false)
    (hinfo : info ∈ infos) : info.queueFamilyIndex < device.families.length := by
  have h : ¬ (device.families.length < infos.length ∨
      ∃ info ∈ infos, device.families.length ≤ info.queueFamilyIndex) :=
    of_decide_eq_false hcollapse
  push Not at h
  exact h.2 info hinfo

/-- Kept requests are possible if no family is there twice, and those for other families than the
selected one, which are not cut, have their queues. -/
theorem possible_kept_iff (hcollapse : collapseQueueFamilies device infos = false) :
    Possible device (infos.map (limitQueueInfo device false)) ↔
      (infos.map DeviceQueueCreateInfo.queueFamilyIndex).Nodup ∧
        ∀ info ∈ infos, info.queueFamilyIndex ≠ device.selected →
          ∀ properties ∈ device.families[info.queueFamilyIndex]?,
            info.queueCount ≤ properties.queueCount := by
  constructor
  · intro h
    refine ⟨map_family_kept ▸ h.once, fun info hinfo hother properties hproperties => ?_⟩
    have hcounts := h.counts _ (List.mem_map_of_mem hinfo)
    simp only [limitQueueInfo_kept, hother, if_false] at hcounts
    exact hcounts properties hproperties
  · rintro ⟨honce, hcounts⟩
    refine ⟨fun created hcreated => ?_, map_family_kept.symm ▸ honce,
      fun created hcreated properties hproperties => ?_⟩
    · obtain ⟨info, hinfo, rfl⟩ := List.mem_map.mp hcreated
      have hknown := families_known hcollapse hinfo
      rw [limitQueueInfo_kept]
      exact hknown
    · obtain ⟨info, hinfo, rfl⟩ := List.mem_map.mp hcreated
      rw [limitQueueInfo_kept] at hproperties ⊢
      by_cases hselected : info.queueFamilyIndex = device.selected
      · simp only [hselected, if_true] at hproperties ⊢
        rw [getElem?_selected] at hproperties
        cases hproperties
        exact Nat.min_le_right _ _
      · simp only [hselected, if_false]
        exact hcounts info hinfo hselected properties hproperties

/-- A family in a structure is fetched from itself where it is known. -/
theorem fetchedFamily_of_known {family : Nat}
    (hknown : readQueueFamilyIndex device family < device.families.length) :
    fetchedFamily device family = readQueueFamilyIndex device family := if_pos hknown

/-- The queues of a kept request. -/
theorem fetched_kept_iff (hinfo : info ∈ infos)
    (hknown : readQueueFamilyIndex device info.queueFamilyIndex < device.families.length) :
    (∀ queueIndex < fetchedCount device info,
      Created ((infos.map (readDeviceQueueCreateInfo device)).map (limitQueueInfo device false))
        ⟨fetchedFamily device info.queueFamilyIndex, queueIndex⟩) ↔
      (readQueueFamilyIndex device info.queueFamilyIndex = device.selected →
        fetchedCount device info ≤ device.selectedCount) := by
  rw [fetchedFamily_of_known hknown]
  simp only [created_kept_iff, List.mem_map, exists_exists_and_eq_and]
  constructor
  · intro h hselected
    by_contra hlong
    obtain ⟨other, -, hfamily, -, hcut⟩ := h device.selectedCount (by omega)
    exact absurd (hcut (hfamily.trans hselected)) (lt_irrefl _)
  · intro hcount queueIndex hlt
    refine ⟨info, hinfo, rfl, lt_of_lt_of_le hlt fetchedCount_le, fun hselected => ?_⟩
    exact lt_of_lt_of_le hlt (hcount hselected)

theorem queues_right_kept_iff (hlength : infos.length ≠ 1)
    (hcollapse :
      collapseQueueFamilies device (infos.map (readDeviceQueueCreateInfo device)) = false) :
    QueuesRight device infos ↔
      (infos.map fun info => readQueueFamilyIndex device info.queueFamilyIndex).Nodup ∧
        ∀ info ∈ infos, KeptServes device info := by
  have hcreate : requestedQueues device infos =
      (infos.map (readDeviceQueueCreateInfo device)).map (limitQueueInfo device false) :=
    replayPreCreateDevice_kept (by rwa [List.length_map]) hcollapse
  have hknown : ∀ info ∈ infos,
      readQueueFamilyIndex device info.queueFamilyIndex < device.families.length :=
    fun info hinfo => families_known hcollapse (List.mem_map_of_mem hinfo)
  have hfamilies : (infos.map (readDeviceQueueCreateInfo device)).map
      DeviceQueueCreateInfo.queueFamilyIndex =
      infos.map fun info => readQueueFamilyIndex device info.queueFamilyIndex := by
    rw [List.map_map]
    rfl
  rw [queuesRight_iff_fetched, hcreate, possible_kept_iff hcollapse, hfamilies,
    List.forall_mem_map, and_assoc]
  refine and_congr_right fun _ => ?_
  rw [← forall₂_and]
  refine forall₂_congr fun info hinfo => ?_
  rw [fetched_kept_iff hinfo (hknown info hinfo), KeptServes,
    fetchedFamily_of_known (hknown info hinfo)]
  by_cases hselected : readQueueFamilyIndex device info.queueFamilyIndex = device.selected
  · -- the number of queues of the selected family was cut
    simp only [readDeviceQueueCreateInfo, hselected, getElem?_selected, ne_eq, not_true,
      false_implies, true_and, forall_const, Option.mem_def, Option.some.injEq, forall_eq']
    exact Iff.rfl
  · have hvirtual : ¬ (info.queueFamilyIndex = virtualQueue ∧ device.selected = virtualQueue) :=
      fun hboth => hselected (if_pos hboth.1)
    simp only [readDeviceQueueCreateInfo, hselected, ne_eq, not_false_iff, forall_const,
      false_implies, and_true, fetchedCount, if_neg hvirtual]

/-- **The queues.**  Each queue that the captured process could fetch was requested, and the
requests are possible, just if the captured requests are served. -/
theorem queues_right_iff (device : ReplayDevice) (infos : List DeviceQueueCreateInfo) :
    QueuesRight device infos ↔ Served device infos := by
  match infos with
  | [] =>
      rw [queues_right_kept_iff (by simp) (by simp [collapseQueueFamilies])]
      simp [Served, collapseQueueFamilies]
  | [info] => exact queues_right_single_iff
  | first :: second :: rest =>
      simp only [Served]
      split_ifs with hcollapse
      · exact queues_right_collapsed_iff hcollapse
      · exact queues_right_kept_iff (by simp) (Bool.eq_false_iff.mpr hcollapse)

end Fetched

instance (infos : List DeviceQueueCreateInfo) (queue : DeviceQueueInfo2) :
    Decidable (Created infos queue) :=
  inferInstanceAs (Decidable (∃ info ∈ infos, info.queueFamilyIndex = queue.queueFamilyIndex ∧
    queue.queueIndex < info.queueCount))

/-- A device with one queue for everything and one for transfers. -/
def twoFamilies : ReplayDevice where
  families := [⟨7, 1⟩, ⟨4, 1⟩]
  selected := 0
  selected_lt := by decide

/-- The virtual family is read as the selected one, and both requests are kept. -/
example : requestedQueues twoFamilies [⟨virtualQueue, 1, none⟩, ⟨1, 1, none⟩] =
    [⟨0, 1, none⟩, ⟨1, 1, none⟩] := by decide

/-- A single request is moved to the selected family; the queue is fetched from its own. -/
theorem transfer_queue_missing :
    ReplayDevice.initialize [⟨7, 1⟩, ⟨4, 1⟩] = some twoFamilies ∧
      requestedQueues twoFamilies [⟨1, 1, none⟩] = [⟨0, 1, none⟩] ∧
      ¬ Created (requestedQueues twoFamilies [⟨1, 1, none⟩])
        (retraceGetDeviceQueue twoFamilies 1 0) := by
  decide

end DeviceQueues
end Lavatube
