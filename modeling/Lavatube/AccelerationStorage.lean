import Lavatube.Lib.Transition

/-!
# The storage of acceleration structures

On the device of a replay an acceleration structure may need more bytes than it did at capture.  The
sizes that the device asks for are noted when the trace queries them, and the creations take them
from this queue in turn.  A structure that does not fit into its buffer any more gets one of its
own, which reaches it through a second queue.

* `replayPreCreate`, `replayCallbackCreate` — what is done before and after a creation.
* `step` — queries, creations and destructions on one thread.
* `Right` — the ranges of the structures are in their buffers, large enough and apart.
* `storage_right_iff` — when they are in every state of a run.
-/

namespace Lavatube
namespace AccelerationStorage

open Transition

/-! ### Creations -/

/-- `internal_buffer`, as far as it is used. -/
structure InternalBuffer where
  id : Nat
  size : UInt64
deriving DecidableEq, Repr

/-- A buffer of the trace, or one that takes its place. -/
inductive BufferHandle where
  | traced (index : Nat)
  | internal (buffer : InternalBuffer)
deriving DecidableEq, Repr

/-- `VkAccelerationStructureCreateInfoKHR`, as far as it is used. -/
structure CreateInfo (Buffer : Type) where
  buffer : Buffer
  offset : UInt64
  size : UInt64
deriving DecidableEq, Repr

/-- An acceleration structure: its creation in the trace, the size that the device of the replay
asks for, as far as it was queried for this structure, its creation in the replay, and
`replay_storage`. -/
structure AccelerationStructure where
  captured : CreateInfo Nat
  wanted : Option UInt64
  created : CreateInfo BufferHandle
  replayStorage : Option InternalBuffer
deriving DecidableEq, Repr

/-- The two queues of a reader, the structures that are alive, and the number of internal buffers.
The answers to all queries are only noted to tell what is right. -/
structure State where
  answers : List UInt64
  pendingBuildSizes : List UInt64
  pendingStorageBuffers : List (Option InternalBuffer)
  structures : List AccelerationStructure
  nextInternal : Nat
deriving DecidableEq, Repr

def initial : State := ⟨[], [], [], [], 0⟩

/-- `replay_callback_vkGetAccelerationStructureBuildSizesKHR`; `complete` means that there are a
build info and primitive counts. -/
def replayCallbackGetBuildSizes (st : State) (answer : UInt64) (complete : Bool) : State :=
  if complete then { st with pendingBuildSizes := st.pendingBuildSizes ++ [answer] } else st

/-- `required_size`: the size in the trace, or the one at the front of the queue if it is larger. -/
def requiredSize (pendingBuildSizes : List UInt64) (size : UInt64) : UInt64 :=
  match pendingBuildSizes with
  | [] => size
  | sizes :: _ => if sizes > size then sizes else size

/-- `replay_pre_vkCreateAccelerationStructureKHR`: the changed info and what goes into the second
queue.  `allocated` is the result of `create_internal_buffer`, and `none` is an abort.  The sum has
64 bits. -/
def replayPreCreate (bufferSize : Nat → UInt64) (st : State) (info : CreateInfo BufferHandle)
    (allocated : Bool) : Option (State × CreateInfo BufferHandle) :=
  let required := requiredSize st.pendingBuildSizes info.size
  let popped := { st with pendingBuildSizes := st.pendingBuildSizes.tail }
  let stays := some ({ popped with
    pendingStorageBuffers := st.pendingStorageBuffers ++ [none] }, { info with size := required })
  match info.buffer with
  | .internal _ => stays
  | .traced index =>
      let needed := info.offset + required
      -- only the end of the buffer is looked at, not the other structures in it
      if bufferSize index < needed then
        if allocated then
          let replacement : InternalBuffer := ⟨st.nextInternal, needed⟩
          some ({ popped with
              pendingStorageBuffers := st.pendingStorageBuffers ++ [some replacement]
              nextInternal := st.nextInternal + 1 },
            ⟨.internal replacement, 0, required⟩)
        else none
      else stays

/-- `replay_callback_vkCreateAccelerationStructureKHR`; `created` is the result of the call. -/
def replayCallbackCreate (st : State) (captured : CreateInfo Nat) (wanted : Option UInt64)
    (info : CreateInfo BufferHandle) (created : Bool) : State :=
  -- the entry that the call before has put into the queue, also if the creation failed
  let storage := st.pendingStorageBuffers.head?.join
  let popped := { st with pendingStorageBuffers := st.pendingStorageBuffers.tail }
  if created then
    { popped with structures := st.structures ++ [⟨captured, wanted, info, storage⟩] }
  else popped

/-- A call of the trace.  A creation tells which query it was made for, by its number. -/
inductive Call where
  | query (answer : UInt64) (complete : Bool)
  | create (info : CreateInfo Nat) (query : Nat) (allocated created : Bool)
  | destroy (position : Nat)
deriving DecidableEq, Repr

/-- One call. -/
def step (bufferSize : Nat → UInt64) (st : State) : Call → Option State
  | .query answer complete =>
      some (replayCallbackGetBuildSizes { st with answers := st.answers ++ [answer] } answer
        complete)
  | .create info query allocated created =>
      (replayPreCreate bufferSize st ⟨.traced info.buffer, info.offset, info.size⟩ allocated).map
        fun (st, created') => replayCallbackCreate st info st.answers[query]? created' created
  | .destroy position =>
      some { st with structures := st.structures.eraseIdx position }

/-! ### What is right -/

/-- Two ranges have no byte in common. -/
def Apart {B C : Type} (a : CreateInfo B) (b : CreateInfo C) : Prop :=
  a.offset.toNat + a.size.toNat ≤ b.offset.toNat ∨ b.offset.toNat + b.size.toNat ≤ a.offset.toNat

instance {B C : Type} (a : CreateInfo B) (b : CreateInfo C) : Decidable (Apart a b) :=
  inferInstanceAs (Decidable (_ ∨ _))

/-- The size of a buffer. -/
def BufferHandle.size (bufferSize : Nat → UInt64) : BufferHandle → UInt64
  | .traced index => bufferSize index
  | .internal buffer => buffer.size

/-- The replacement among the buffers. -/
def BufferHandle.internal? : BufferHandle → Option InternalBuffer
  | .traced _ => none
  | .internal buffer => some buffer

/-- The storage of structures is right. -/
structure Right (bufferSize : Nat → UInt64) (structures : List AccelerationStructure) : Prop where
  inside : ∀ s ∈ structures, s.created.offset.toNat + s.created.size.toNat ≤
    (s.created.buffer.size bufferSize).toNat
  attached : ∀ s ∈ structures, s.replayStorage = s.created.buffer.internal?
  large : ∀ s ∈ structures, s.captured.size ≤ s.created.size ∧
    ∀ answer ∈ s.wanted, answer ≤ s.created.size
  apart : structures.Pairwise fun a b => a.captured.buffer = b.captured.buffer →
    Apart a.captured b.captured → a.created.buffer = b.created.buffer → Apart a.created b.created

/-- **The condition on a creation.**  The end of the larger range is a number of 64 bits; the front
of the queue is no less than what the structure was queried for, or the size in the trace is; and a
range that still fits into its buffer meets none of those that were apart from it. -/
def Fits (bufferSize : Nat → UInt64) (st : State) : Call → Prop
  | .create info query _ true =>
      let required := requiredSize st.pendingBuildSizes info.size
      info.offset.toNat + required.toNat < 2 ^ 64 ∧
        (∀ answer ∈ st.answers[query]?, answer ≤ required) ∧
        (info.offset.toNat + required.toNat ≤ (bufferSize info.buffer).toNat →
          ∀ s ∈ st.structures, s.created.buffer = .traced info.buffer → Apart s.captured info →
            Apart s.created { info with size := required })
  | _ => True

instance (bufferSize : Nat → UInt64) (st : State) :
    (call : Call) → Decidable (Fits bufferSize st call)
  | .create info query _ true =>
      -- not an instance that goes through all numbers of 64 bits
      have : Decidable (∀ answer ∈ st.answers[query]?,
          answer ≤ requiredSize st.pendingBuildSizes info.size) := Option.decidableForallMem _
      inferInstanceAs (Decidable (_ ∧ _ ∧ _))
  | .create _ _ _ false => .isTrue trivial
  | .query _ _ => .isTrue trivial
  | .destroy _ => .isTrue trivial

/-! ## Steps -/

/-- What holds between the calls: the second queue is empty, and the buffers are those of the trace
or come from the replay before. -/
structure Shape (st : State) : Prop where
  idle : st.pendingStorageBuffers = []
  traced : ∀ s ∈ st.structures, ∀ index, s.created.buffer = .traced index →
    s.captured.buffer = index
  internal : ∀ s ∈ st.structures, ∀ buffer, s.created.buffer = .internal buffer →
    buffer.id < st.nextInternal

section

variable {bufferSize : Nat → UInt64} {st next : State} {info : CreateInfo Nat} {query : Nat}
variable {allocated created : Bool} {structures : List AccelerationStructure}
variable {s : AccelerationStructure}

theorem le_requiredSize (pending : List UInt64) (size : UInt64) :
    size ≤ requiredSize pending size := by
  unfold requiredSize
  split
  · exact UInt64.le_refl _
  · split_ifs with hlarger
    · exact UInt64.le_of_lt hlarger
    · exact UInt64.le_refl _

/-- **What a creation does.**  The structure stays where it was, or it gets a new buffer. -/
theorem create_cases (hidle : st.pendingStorageBuffers = [])
    (hstep : step bufferSize st (.create info query allocated created) = some next) :
    ∃ (handle : BufferHandle) (offset : UInt64),
      (handle = .traced info.buffer ∧ offset = info.offset ∧
          ¬ bufferSize info.buffer < info.offset + requiredSize st.pendingBuildSizes info.size ∧
          next.nextInternal = st.nextInternal ∨
        handle = .internal ⟨st.nextInternal,
            info.offset + requiredSize st.pendingBuildSizes info.size⟩ ∧ offset = 0 ∧
          bufferSize info.buffer < info.offset + requiredSize st.pendingBuildSizes info.size ∧
          next.nextInternal = st.nextInternal + 1) ∧
      next.pendingStorageBuffers = [] ∧
      next.structures = if created then st.structures ++ [⟨info, st.answers[query]?,
        ⟨handle, offset, requiredSize st.pendingBuildSizes info.size⟩, handle.internal?⟩]
      else st.structures := by
  obtain ⟨⟨middle, created'⟩, hpre, rfl⟩ := Option.map_eq_some_iff.mp hstep
  unfold replayPreCreate at hpre
  simp only at hpre
  split_ifs at hpre with hlarge hallocated
  · obtain ⟨rfl, rfl⟩ := Prod.mk.inj (Option.some.inj hpre)
    refine ⟨_, _, .inr ⟨rfl, rfl, hlarge, ?_⟩, ?_, ?_⟩
    all_goals
      cases created
      all_goals simp [replayCallbackCreate, hidle, BufferHandle.internal?]
  · obtain ⟨rfl, rfl⟩ := Prod.mk.inj (Option.some.inj hpre)
    refine ⟨_, _, .inl ⟨rfl, rfl, hlarge, ?_⟩, ?_, ?_⟩
    all_goals
      cases created
      all_goals simp [replayCallbackCreate, hidle, BufferHandle.internal?]

/-- One more structure. -/
theorem right_append_iff (hright : Right bufferSize structures) :
    Right bufferSize (structures ++ [s]) ↔
      s.created.offset.toNat + s.created.size.toNat ≤ (s.created.buffer.size bufferSize).toNat ∧
      s.replayStorage = s.created.buffer.internal? ∧
      (s.captured.size ≤ s.created.size ∧ ∀ answer ∈ s.wanted, answer ≤ s.created.size) ∧
      ∀ a ∈ structures, a.captured.buffer = s.captured.buffer → Apart a.captured s.captured →
        a.created.buffer = s.created.buffer → Apart a.created s.created := by
  constructor
  · intro hall
    have hmem : s ∈ structures ++ [s] := List.mem_append_right _ (List.mem_singleton_self s)
    refine ⟨hall.inside s hmem, hall.attached s hmem, hall.large s hmem, fun a ha => ?_⟩
    exact (List.pairwise_append.mp hall.apart).2.2 a ha s (List.mem_singleton_self s)
  · rintro ⟨hinside, hattached, hlarge, hapart⟩
    constructor
    · rw [List.forall_mem_append, List.forall_mem_singleton]
      exact ⟨hright.inside, hinside⟩
    · rw [List.forall_mem_append, List.forall_mem_singleton]
      exact ⟨hright.attached, hattached⟩
    · rw [List.forall_mem_append, List.forall_mem_singleton]
      exact ⟨hright.large, hlarge⟩
    · rw [List.pairwise_append]
      refine ⟨hright.apart, List.pairwise_singleton _ _, fun a ha b hb => ?_⟩
      rw [List.mem_singleton.mp hb]
      exact hapart a ha

theorem Right.eraseIdx (hright : Right bufferSize structures) (position : Nat) :
    Right bufferSize (structures.eraseIdx position) where
  inside := fun s hs => hright.inside s (List.mem_of_mem_eraseIdx hs)
  attached := fun s hs => hright.attached s (List.mem_of_mem_eraseIdx hs)
  large := fun s hs => hright.large s (List.mem_of_mem_eraseIdx hs)
  apart := hright.apart.eraseIdx position

/-- A creation is right exactly if it meets the condition. -/
theorem create_right_iff (hshape : Shape st) (hright : Right bufferSize st.structures)
    (hstep : step bufferSize st (.create info query allocated created) = some next) :
    Right bufferSize next.structures ↔
      Fits bufferSize st (.create info query allocated created) := by
  obtain ⟨handle, offset, hplace, -, hstructures⟩ := create_cases hshape.idle hstep
  rw [hstructures]
  cases created with
  | false => simp [Fits, hright]
  | true =>
      rw [if_pos rfl, right_append_iff hright]
      have hleast := le_requiredSize st.pendingBuildSizes info.size
      simp only [Fits, hleast, true_and]
      generalize requiredSize st.pendingBuildSizes info.size = required at hplace
      have hsum := UInt64.toNat_add info.offset required
      have hoffset := info.offset.toNat_lt
      have hrequired := required.toNat_lt
      rcases hplace with ⟨rfl, rfl, hfits, -⟩ | ⟨rfl, rfl, hlarge, -⟩
      · -- it stays in its buffer
        rw [UInt64.lt_iff_toNat_lt, hsum] at hfits
        have hsize := (bufferSize info.buffer).toNat_lt
        simp only [BufferHandle.size]
        constructor
        · rintro ⟨hinside, hlarge, hapart⟩
          refine ⟨by omega, hlarge, fun _ a ha hbuffer hcaptured => ?_⟩
          exact hapart a ha (hshape.traced a ha _ hbuffer) hcaptured hbuffer
        · rintro ⟨hsmall, hlarge, hapart⟩
          rw [Nat.mod_eq_of_lt hsmall, Nat.not_lt] at hfits
          exact ⟨hfits, hlarge, fun a ha _ hcaptured hbuffer => hapart hfits a ha hbuffer hcaptured⟩
      · -- it gets a buffer that is as large as the sum says
        rw [UInt64.lt_iff_toNat_lt, hsum] at hlarge
        simp only [BufferHandle.size, hsum]
        constructor
        · rintro ⟨hinside, hwanted, -⟩
          have hzero : (0 : UInt64).toNat = 0 := rfl
          have hsmall : info.offset.toNat + required.toNat < 2 ^ 64 := by
            by_contra hwraps
            omega
          refine ⟨hsmall, hwanted, fun hstays => ?_⟩
          omega
        · rintro ⟨hsmall, hwanted, -⟩
          rw [Nat.mod_eq_of_lt hsmall]
          refine ⟨Nat.add_le_add_right (Nat.zero_le _) _, hwanted, fun a ha _ _ hbuffer => ?_⟩
          have hlt := hshape.internal a ha _ hbuffer
          exact absurd hlt (lt_irrefl _)

theorem shape_initial : Shape initial where
  idle := rfl
  traced := fun _ hs => absurd hs List.not_mem_nil
  internal := fun _ hs => absurd hs List.not_mem_nil

theorem right_nil : Right bufferSize [] where
  inside := fun _ hs => absurd hs List.not_mem_nil
  attached := fun _ hs => absurd hs List.not_mem_nil
  large := fun _ hs => absurd hs List.not_mem_nil
  apart := List.Pairwise.nil

theorem Shape.step {call : Call} (hshape : Shape st) (hstep : step bufferSize st call = some next) :
    Shape next := by
  cases call with
  | query answer complete =>
      cases hstep
      cases complete
      · exact ⟨hshape.idle, hshape.traced, hshape.internal⟩
      · exact ⟨hshape.idle, hshape.traced, hshape.internal⟩
  | create info query allocated created =>
      obtain ⟨handle, offset, hplace, hidle, hstructures⟩ := create_cases hshape.idle hstep
      have hmore : st.nextInternal ≤ next.nextInternal := by
        rcases hplace with ⟨-, -, -, h⟩ | ⟨-, -, -, h⟩ <;> omega
      refine ⟨hidle, fun s hs index hbuffer => ?_, fun s hs buffer hbuffer => ?_⟩
      · rw [hstructures] at hs
        split_ifs at hs
        · rcases List.mem_append.mp hs with hs | hs
          · exact hshape.traced s hs index hbuffer
          · rw [List.mem_singleton.mp hs] at hbuffer ⊢
            rcases hplace with ⟨rfl, -, -, -⟩ | ⟨rfl, -, -, -⟩
            · cases hbuffer
              rfl
            · cases hbuffer
        · exact hshape.traced s hs index hbuffer
      · rw [hstructures] at hs
        split_ifs at hs
        · rcases List.mem_append.mp hs with hs | hs
          · exact (hshape.internal s hs buffer hbuffer).trans_le hmore
          · rw [List.mem_singleton.mp hs] at hbuffer
            rcases hplace with ⟨rfl, -, -, -⟩ | ⟨rfl, -, -, hnext⟩
            · cases hbuffer
            · cases hbuffer
              rw [hnext]
              exact Nat.lt_succ_self _
        · exact (hshape.internal s hs buffer hbuffer).trans_le hmore
  | destroy position =>
      cases hstep
      exact ⟨hshape.idle, fun s hs => hshape.traced s (List.mem_of_mem_eraseIdx hs),
        fun s hs => hshape.internal s (List.mem_of_mem_eraseIdx hs)⟩

/-- A step keeps the storage right exactly if it meets the condition. -/
theorem step_right {call : Call} (hshape : Shape st) (hright : Right bufferSize st.structures)
    (hstep : step bufferSize st call = some next) (hfits : Fits bufferSize st call) :
    Right bufferSize next.structures := by
  cases call with
  | query answer complete =>
      cases hstep
      cases complete
      · exact hright
      · exact hright
  | create info query allocated created => exact (create_right_iff hshape hright hstep).mpr hfits
  | destroy position =>
      cases hstep
      exact hright.eraseIdx position

theorem fits_of_right {call : Call} (hshape : Shape st) (hright : Right bufferSize st.structures)
    (hstep : step bufferSize st call = some next) (hnext : Right bufferSize next.structures) :
    Fits bufferSize st call := by
  cases call with
  | query answer complete => trivial
  | create info query allocated created => exact (create_right_iff hshape hright hstep).mp hnext
  | destroy position => trivial

/-! ## Runs -/

/-- **The storage is right** in every state of a run exactly if every creation meets the
condition. -/
theorem storage_right_iff {calls : List Call} {final : State}
    (hexec : exec (step bufferSize) initial calls = some final) :
    (∀ k middle, exec (step bufferSize) initial (calls.take k) = some middle →
        Right bufferSize middle.structures) ↔
      Along (step bufferSize) (Fits bufferSize) initial calls := by
  have hkeep : ∀ st call next, Shape st ∧ Right bufferSize st.structures →
      Fits bufferSize st call → step bufferSize st call = some next →
        Shape next ∧ Right bufferSize next.structures :=
    fun _ _ _ hinv hfits hstep => ⟨hinv.1.step hstep, step_right hinv.1 hinv.2 hstep hfits⟩
  have hback : ∀ st call next, Shape st ∧ Right bufferSize st.structures →
      step bufferSize st call = some next → Right bufferSize next.structures →
        Fits bufferSize st call :=
    fun _ _ _ hinv hstep hnext => fits_of_right hinv.1 hinv.2 hstep hnext
  exact prefixes_iff_along (fun _ hinv => hinv.2) hkeep hback ⟨shape_initial, right_nil⟩ hexec

end

/-! ### Examples -/

/-- Two structures in one buffer, each with a query of its own; the device of the replay asks for
`first` bytes for the first one. -/
def twoStructures (first : UInt64) : List Call :=
  [.query first true, .query 256 true, .create ⟨0, 0, 256⟩ 0 true true,
    .create ⟨0, 256, 256⟩ 1 true true]

theorem storage_right_smaller :
    ∃ final, exec (step fun _ => 1024) initial (twoStructures 128) = some final ∧
      ∀ k middle, exec (step fun _ => 1024) initial ((twoStructures 128).take k) = some middle →
        Right (fun _ => 1024) middle.structures := by
  have hexec : exec (step fun _ => 1024) initial (twoStructures 128) =
      some ⟨[128, 256], [], [], [⟨⟨0, 0, 256⟩, some 128, ⟨.traced 0, 0, 256⟩, none⟩,
        ⟨⟨0, 256, 256⟩, some 256, ⟨.traced 0, 256, 256⟩, none⟩], 0⟩ := by decide
  refine ⟨_, hexec, (storage_right_iff hexec).mpr ?_⟩
  decide

/-- **The first one grows in its place**, over the second one. -/
theorem grown_structure_overlaps :
    ∃ final, exec (step fun _ => 1024) initial (twoStructures 512) = some final ∧
      ¬ Right (fun _ => 1024) final.structures := by
  refine ⟨⟨[512, 256], [], [], [⟨⟨0, 0, 256⟩, some 512, ⟨.traced 0, 0, 512⟩, none⟩,
    ⟨⟨0, 256, 256⟩, some 256, ⟨.traced 0, 256, 256⟩, none⟩], 0⟩, by decide, fun hright => ?_⟩
  have hapart := (List.pairwise_cons.mp hright.apart).1 _ (List.mem_singleton_self _) rfl
    (.inl (by decide)) rfl
  exact absurd hapart (by decide)

end AccelerationStorage
end Lavatube
