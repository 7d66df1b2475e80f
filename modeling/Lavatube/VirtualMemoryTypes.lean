import Mathlib.Tactic

/-!
# Virtual memory types

Capture splits each memory type that is both device local and host visible into two virtual
types, of which the application sees one as device local and the other as host visible.  The
original keeps its place, the new type goes to the end of the table, and `remap` leads from every
virtual type to the real type behind it.  Memory requirements of the driver are extended to the
virtual types, and an allocation is sent to the real type.

* `setupVirtualMemory` — the split; `extendBits`, `allocateMemory` — the uses of the table.
* `SplitUpTo` — the table after the turns of the first types.
* `getLsbD_extendBits` — the bits of the extended requirements.
* `virtual_types_sound` — what holds of every table.
-/

namespace Lavatube
namespace VirtualMemoryTypes

/-- `VkMemoryType`. -/
structure MemoryType where
  propertyFlags : BitVec 32
  heapIndex : Nat := 0
  deriving DecidableEq, Repr

/-- `VK_MEMORY_PROPERTY_DEVICE_LOCAL_BIT`. -/
def deviceLocalBit : BitVec 32 := 0x1

/-- `VK_MEMORY_PROPERTY_HOST_VISIBLE_BIT`. -/
def hostVisibleBit : BitVec 32 := 0x2

/-- `VK_MEMORY_PROPERTY_HOST_COHERENT_BIT`. -/
def hostCoherentBit : BitVec 32 := 0x4

/-- `VK_MEMORY_PROPERTY_HOST_CACHED_BIT`. -/
def hostCachedBit : BitVec 32 := 0x8

/-- `VK_MEMORY_PROPERTY_LAZILY_ALLOCATED_BIT`. -/
def lazilyAllocatedBit : BitVec 32 := 0x10

/-- `VK_MAX_MEMORY_TYPES`. -/
def maxMemoryTypes : Nat := 32

/-- The type has the property. -/
def MemoryType.has (type : MemoryType) (bit : BitVec 32) : Prop := type.propertyFlags &&& bit ≠ 0

instance (type : MemoryType) (bit : BitVec 32) : Decidable (type.has bit) :=
  inferInstanceAs (Decidable (_ ≠ _))

/-- `propertyFlags &= ~bit`. -/
def MemoryType.clear (type : MemoryType) (bit : BitVec 32) : MemoryType :=
  { type with propertyFlags := type.propertyFlags &&& ~~~bit }

/-- A type that is to be split. -/
def MemoryType.Broad (type : MemoryType) : Prop :=
  type.has deviceLocalBit ∧ type.has hostVisibleBit

instance (type : MemoryType) : Decidable type.Broad := inferInstanceAs (Decidable (_ ∧ _))

/-- `virtual_memory_properties` and `remap_memory_types_to_real`. -/
structure VirtualTypes where
  types : List MemoryType
  remap : Nat → Nat

/-- One turn of the loop in `setup_virtual_memory`. -/
def splitType (real : List MemoryType) (table : VirtualTypes) (i : Nat) : VirtualTypes :=
  let table := { table with remap := Function.update table.remap i i }
  match real[i]? with
  | none => table
  | some type =>
      if table.types.length < maxMemoryTypes ∧ type.has deviceLocalBit ∧
          type.has hostVisibleBit then
        -- the original becomes device local only, the new one host visible only
        let types := table.types.modify i fun type =>
          ((type.clear hostVisibleBit).clear hostCoherentBit).clear hostCachedBit
        let newmti := types.length
        { types := types ++ [(type.clear deviceLocalBit).clear lazilyAllocatedBit]
          remap := Function.update table.remap newmti i }
      else table

/-- The first turns of the loop. -/
def splitTypes (real : List MemoryType) (remap : Nat → Nat) : Nat → VirtualTypes
  | 0 => ⟨real, remap⟩
  | i + 1 => splitType real (splitTypes real remap i) i

/-- The statics that the three places share. -/
structure State where
  real : List MemoryType
  virtual : VirtualTypes

/-- `setup_virtual_memory`, with the table that the driver reports; `none` when an assertion
fails. -/
def setupVirtualMemory (remap : Nat → Nat) (real : List MemoryType) : Option State :=
  if 0 < real.length then some ⟨real, splitTypes real remap real.length⟩ else none

/-- One turn of the loop in `extend_bits`. -/
def extendBit (remap : Nat → Nat) (bits : BitVec 32) (i : Nat) : BitVec 32 :=
  if (1#32 <<< remap i) &&& bits ≠ 0 then bits ||| 1#32 <<< i else bits &&& ~~~(1#32 <<< i)

/-- `extend_bits`; `none` when the assertion fails. -/
def extendBits (st : State) (bits : BitVec 32) : Option (BitVec 32) :=
  if 0 < st.virtual.types.length then
    some ((List.range' st.real.length (st.virtual.types.length - st.real.length)).foldl
      (extendBit st.virtual.remap) bits)
  else none

/-- The memory type of `vkAllocateMemory`; `none` when an assertion fails. -/
def allocateMemory (st : State) (memoryTypeIndex : Nat) : Option Nat :=
  if 0 < st.real.length ∧ memoryTypeIndex < st.virtual.types.length ∧
      st.virtual.remap memoryTypeIndex < st.real.length then
    some (st.virtual.remap memoryTypeIndex)
  else none

/-- The number of types to be split in front of the type `n`. -/
def broadBefore (real : List MemoryType) (n : Nat) : Nat :=
  (real.take n).countP fun type => type.Broad

/-- Every property of the type is one of the other type. -/
def MemoryType.Within (type origin : MemoryType) : Prop :=
  ∀ bit, type.propertyFlags.getLsbD bit = true → origin.propertyFlags.getLsbD bit = true

/-- What the three places promise each other.  At the turn of a type the table has the real types
and one more for each type that was split before it. -/
structure Sound (real : List MemoryType) (st : State) : Prop where
  remap_lt : ∀ v < st.virtual.types.length, st.virtual.remap v < real.length
  within : ∀ v type, st.virtual.types[v]? = some type →
    ∃ origin, real[st.virtual.remap v]? = some origin ∧ type.Within origin
  split : ∀ i origin, real[i]? = some origin → origin.Broad →
    (∀ v type, st.virtual.types[v]? = some type → st.virtual.remap v = i → ¬ type.Broad) ∨
      maxMemoryTypes ≤ real.length + broadBefore real i
  extend : ∀ bits : BitVec 32, (∀ i, real.length ≤ i → bits.getLsbD i = false) →
    ∃ extended, extendBits st bits = some extended ∧
      (∀ v < st.virtual.types.length,
        extended.getLsbD v = bits.getLsbD (st.virtual.remap v)) ∧
      ∀ v, extended.getLsbD v = true → ∃ index, allocateMemory st v = some index ∧
        index = st.virtual.remap v ∧ index < real.length ∧ bits.getLsbD index = true

/-- The table after the turns of the first `n` types. -/
structure SplitUpTo (real : List MemoryType) (n : Nat) (table : VirtualTypes) : Prop where
  length : table.types.length = min maxMemoryTypes (real.length + broadBefore real n)
  own : ∀ v < n, table.remap v = v
  original : ∀ v < real.length, ∃ type origin, table.types[v]? = some type ∧
    real[v]? = some origin ∧ type.Within origin ∧ (n ≤ v → type = origin) ∧
      (v < n → real.length + broadBefore real v < maxMemoryTypes → ¬ type.Broad)
  added : ∀ v type, real.length ≤ v → table.types[v]? = some type →
    table.remap v < n ∧ ¬ type.Broad ∧
      ∃ origin, real[table.remap v]? = some origin ∧ type.Within origin

variable {real : List MemoryType} {table : VirtualTypes} {type origin : MemoryType}
variable {bit other : BitVec 32} {remap : Nat → Nat} {n v : Nat}

/-! ### Flags -/

theorem MemoryType.Within.refl : type.Within type := fun _ h => h

theorem MemoryType.Within.clear (hwithin : type.Within origin) :
    (type.clear bit).Within origin := by
  intro i hi
  rw [MemoryType.clear, BitVec.getLsbD_and, Bool.and_eq_true] at hi
  exact hwithin i hi.1

theorem MemoryType.not_has_clear : ¬ (type.clear bit).has bit := by
  intro hhas
  apply hhas
  ext i hi
  simp [MemoryType.clear]

theorem MemoryType.has_of_clear (hhas : (type.clear other).has bit) : type.has bit := by
  intro hnone
  apply hhas
  rw [MemoryType.clear, BitVec.and_assoc, BitVec.and_comm _ bit, ← BitVec.and_assoc, hnone]
  exact BitVec.zero_and

/-- The original is not host visible any more. -/
theorem MemoryType.not_broad_original :
    ¬ (((type.clear hostVisibleBit).clear hostCoherentBit).clear hostCachedBit).Broad := by
  rintro ⟨-, hvisible⟩
  exact not_has_clear (has_of_clear (has_of_clear hvisible))

/-- The new type is not device local. -/
theorem MemoryType.not_broad_added :
    ¬ ((type.clear deviceLocalBit).clear lazilyAllocatedBit).Broad := by
  rintro ⟨hlocal, -⟩
  exact not_has_clear (has_of_clear hlocal)

/-! ### The split -/

theorem broadBefore_succ (htype : real[n]? = some type) :
    broadBefore real (n + 1) = broadBefore real n + if type.Broad then 1 else 0 := by
  unfold broadBefore
  rw [List.take_add_one, htype, List.countP_append]
  simp [List.countP_cons]

theorem splitUpTo_zero (hcount : real.length ≤ maxMemoryTypes) :
    SplitUpTo real 0 ⟨real, remap⟩ where
  length := by simp [broadBefore, hcount]
  own := fun v hv => absurd hv (Nat.not_lt_zero v)
  original := fun v hv => by
    refine ⟨real[v], real[v], ?_, ?_, MemoryType.Within.refl, fun _ => rfl, ?_⟩
    · exact List.getElem?_eq_getElem hv
    · exact List.getElem?_eq_getElem hv
    · exact fun h => absurd h (Nat.not_lt_zero v)
  added := fun v type hv htype => by
    rw [List.getElem?_eq_none hv] at htype
    cases htype

/-- What a turn does: the type is split if it is to be and there is room. -/
theorem splitType_of_split (htype : real[n]? = some type) (hbroad : type.Broad)
    (hroom : table.types.length < maxMemoryTypes) :
    splitType real table n =
      { types := (table.types.modify n fun type =>
          ((type.clear hostVisibleBit).clear hostCoherentBit).clear hostCachedBit) ++
            [(type.clear deviceLocalBit).clear lazilyAllocatedBit]
        remap := Function.update (Function.update table.remap n n) table.types.length n } := by
  unfold splitType
  simp only [htype]
  rw [if_pos ⟨hroom, hbroad.1, hbroad.2⟩, List.length_modify]

theorem splitType_of_kept (htype : real[n]? = some type)
    (hkept : ¬ (table.types.length < maxMemoryTypes ∧ type.Broad)) :
    splitType real table n = { table with remap := Function.update table.remap n n } := by
  unfold splitType
  simp only [htype]
  exact if_neg hkept

theorem SplitUpTo.kept (hsplit : SplitUpTo real n table) (htype : real[n]? = some type)
    (hkept : ¬ (table.types.length < maxMemoryTypes ∧ type.Broad)) :
    SplitUpTo real (n + 1) { table with remap := Function.update table.remap n n } := by
  have hn : n < real.length := (List.getElem?_eq_some_iff.mp htype).1
  have hlength := hsplit.length
  constructor
  · rw [broadBefore_succ htype]
    show table.types.length = _
    split_ifs with hbroad
    · have : ¬ table.types.length < maxMemoryTypes := fun h => hkept ⟨h, hbroad⟩
      omega
    · exact hlength
  · intro v hv
    by_cases h : v = n
    · simp [h]
    · have hold := hsplit.own v (by omega)
      simp [h, hold]
  · intro v hv
    obtain ⟨type', origin, hv', horigin, hwithin, hsame, hnarrow⟩ := hsplit.original v hv
    refine ⟨type', origin, hv', horigin, hwithin, fun h => hsame (by omega), fun h hroom => ?_⟩
    rcases Nat.lt_succ_iff_lt_or_eq.mp h with h | rfl
    · exact hnarrow h hroom
    · -- there is room, so the type is not one to be split
      rw [horigin, Option.some_inj] at htype
      rw [hsame le_rfl, htype]
      exact fun hbroad => hkept ⟨by omega, hbroad⟩
  · intro v type' hv hv'
    obtain ⟨hlt, hnarrow, horigin⟩ := hsplit.added v type' hv hv'
    have hne : v ≠ n := by omega
    show Function.update table.remap n n v < n + 1 ∧ ¬ type'.Broad ∧
      ∃ origin, real[Function.update table.remap n n v]? = some origin ∧ type'.Within origin
    rw [Function.update_of_ne hne]
    exact ⟨by omega, hnarrow, horigin⟩

theorem SplitUpTo.split (hsplit : SplitUpTo real n table) (htype : real[n]? = some type)
    (hcount : real.length ≤ maxMemoryTypes)
    (hbroad : type.Broad) (hroom : table.types.length < maxMemoryTypes) :
    SplitUpTo real (n + 1) (splitType real table n) := by
  have hn : n < real.length := (List.getElem?_eq_some_iff.mp htype).1
  have hlength := hsplit.length
  have hgrown : real.length ≤ table.types.length := by
    rw [hlength]
    exact le_min hcount (Nat.le_add_right _ _)
  rw [splitType_of_split htype hbroad hroom]
  constructor
  · rw [broadBefore_succ htype, if_pos hbroad]
    simp only [List.length_append, List.length_modify, List.length_singleton]
    omega
  · intro v hv
    have hne : v ≠ table.types.length := by omega
    by_cases h : v = n
    · subst h
      simp [hne]
    · have hold := hsplit.own v (by omega)
      simp [h, hne, hold]
  · intro v hv
    obtain ⟨type', origin, hv', horigin, hwithin, hsame, hnarrow⟩ := hsplit.original v hv
    have hfront : v < (table.types.modify n fun type =>
        ((type.clear hostVisibleBit).clear hostCoherentBit).clear hostCachedBit).length := by
      rw [List.length_modify]
      omega
    simp only [List.getElem?_append_left hfront, List.getElem?_modify, hv', Option.map_eq_map,
      Option.map_some]
    by_cases h : n = v
    · subst h
      refine ⟨_, origin, by rw [if_pos rfl], horigin, hwithin.clear.clear.clear,
        fun h => by omega, fun _ _ => MemoryType.not_broad_original⟩
    · refine ⟨type', origin, by rw [if_neg h], horigin, hwithin, fun h => hsame (by omega),
        fun h' => hnarrow (by omega)⟩
  · intro v type' hv hv'
    by_cases h : v = table.types.length
    · -- the new type
      subst h
      rw [List.getElem?_append_right (by rw [List.length_modify]), List.length_modify,
        Nat.sub_self, List.getElem?_cons_zero, Option.some_inj] at hv'
      subst hv'
      refine ⟨by simp, MemoryType.not_broad_added, type, ?_,
        MemoryType.Within.refl.clear.clear⟩
      simpa using htype
    · have hlt : v < (table.types.modify n fun type =>
          ((type.clear hostVisibleBit).clear hostCoherentBit).clear hostCachedBit).length := by
        have := (List.getElem?_eq_some_iff.mp hv').1
        simp only [List.length_append, List.length_modify, List.length_singleton] at this
        rw [List.length_modify]
        omega
      have hne : n ≠ v := by omega
      simp only [List.getElem?_append_left hlt, List.getElem?_modify, if_neg hne,
        Option.map_eq_map, Option.map_id'] at hv'
      obtain ⟨hlt', hnarrow, horigin⟩ := hsplit.added v type' hv hv'
      dsimp only
      rw [Function.update_of_ne h, Function.update_of_ne hne.symm]
      exact ⟨by omega, hnarrow, horigin⟩

/-- The loop, turn by turn. -/
theorem splitTypes_upTo (remap : Nat → Nat) (hcount : real.length ≤ maxMemoryTypes)
    (hn : n ≤ real.length) :
    SplitUpTo real n (splitTypes real remap n) := by
  induction n with
  | zero => exact splitUpTo_zero hcount
  | succ n ih =>
      have hsplit := ih (by omega)
      have htype : real[n]? = some real[n] := List.getElem?_eq_getElem (by omega)
      show SplitUpTo real (n + 1) (splitType real (splitTypes real remap n) n)
      by_cases h : (splitTypes real remap n).types.length < maxMemoryTypes ∧ real[n].Broad
      · exact hsplit.split htype hcount h.2 h.1
      · rw [splitType_of_kept htype h]
        exact hsplit.kept htype h

/-! ### The bits -/

variable {st : State} {bits : BitVec 32} {i : Nat}

/-- The bit of a real type, by its mask. -/
theorem mask_and_ne_zero_iff (hi : i < 32) :
    (1#32 <<< i) &&& bits ≠ 0 ↔ bits.getLsbD i = true := by
  rw [← BitVec.twoPow_eq, BitVec.and_comm, BitVec.and_twoPow]
  cases hbit : bits.getLsbD i with
  | false => simp
  | true =>
      simp only [if_true, iff_true]
      intro hzero
      have hself := congrArg (fun mask : BitVec 32 => mask.getLsbD i) hzero
      simp [hi] at hself

/-- A turn gives the virtual type the bit of its real type. -/
theorem getLsbD_extendBit (hremap : remap i < 32) (hi : i < 32) :
    (extendBit remap bits i).getLsbD v =
      if v = i then bits.getLsbD (remap i) else bits.getLsbD v := by
  have hmask : (1#32 <<< i).getLsbD v = decide (v = i) := by
    rw [← BitVec.twoPow_eq, BitVec.getLsbD_twoPow]
    by_cases hv : v = i
    · simp [hv, hi]
    · simp [hv, Ne.symm hv]
  unfold extendBit
  by_cases hreal : bits.getLsbD (remap i) = true
  · rw [if_pos ((mask_and_ne_zero_iff hremap).mpr hreal), BitVec.getLsbD_or, hmask, hreal]
    by_cases hv : v = i
    · simp [hv]
    · simp [hv]
  · have hclear : bits.getLsbD (remap i) = false := by simpa using hreal
    rw [if_neg (mt (mask_and_ne_zero_iff hremap).mp hreal), BitVec.getLsbD_and,
      BitVec.getLsbD_not, hmask, hclear]
    by_cases hv : v = i
    · simp [hv]
    · by_cases hlt : v < 32
      · simp [hv, hlt]
      · simp [hv, BitVec.getLsbD_of_ge bits v (by omega)]

/-- The loop gives each virtual type in its range the bit of its real type, and leaves the bits in
front of the range alone. -/
theorem getLsbD_extendBits (remap : Nat → Nat) (bits : BitVec 32) (first count v : Nat)
    (hend : first + count ≤ 32)
    (hremap : ∀ v, first ≤ v → v < first + count → remap v < first) :
    ((List.range' first count).foldl (extendBit remap) bits).getLsbD v =
      if first ≤ v ∧ v < first + count then bits.getLsbD (remap v) else bits.getLsbD v := by
  induction count generalizing v with
  | zero => simp [show ¬ (first ≤ v ∧ v < first) by omega]
  | succ count ih =>
      have hlast := hremap (first + count) (by omega) (by omega)
      have hfront : ∀ v, ((List.range' first count).foldl (extendBit remap) bits).getLsbD v =
          if first ≤ v ∧ v < first + count then bits.getLsbD (remap v) else bits.getLsbD v :=
        fun v => ih v (by omega) fun v hv hlt => hremap v hv (by omega)
      rw [List.range'_concat, List.foldl_append, List.foldl_cons, List.foldl_nil, Nat.one_mul,
        getLsbD_extendBit (by omega) (by omega), hfront, hfront]
      by_cases hv : v = first + count
      · -- the real type is in front of the range, so the turns so far have kept its bit
        rw [if_pos hv, if_neg (by omega), if_pos (by omega), hv]
      · rw [if_neg hv]
        by_cases hin : first ≤ v ∧ v < first + count
        · rw [if_pos hin, if_pos (by omega)]
        · rw [if_neg hin, if_neg (by omega)]

/-! ### The three places together -/

theorem setupVirtualMemory_eq_some_iff :
    setupVirtualMemory remap real = some st ↔
      0 < real.length ∧ st = ⟨real, splitTypes real remap real.length⟩ := by
  unfold setupVirtualMemory
  split_ifs with h
  · simp [h, eq_comm]
  · simp [h]

theorem SplitUpTo.remap_lt (hsplit : SplitUpTo real real.length table)
    (hv : v < table.types.length) : table.remap v < real.length := by
  by_cases h : v < real.length
  · rw [hsplit.own v h]
    exact h
  · exact (hsplit.added v table.types[v] (by omega) (List.getElem?_eq_getElem hv)).1

/-- A virtual type with both properties is a real type for which there was no room. -/
theorem SplitUpTo.not_broad (hsplit : SplitUpTo real real.length table) {i : Nat}
    (hi : i < real.length) (hroom : real.length + broadBefore real i < maxMemoryTypes)
    (hv : table.types[v]? = some type) (hremap : table.remap v = i) : ¬ type.Broad := by
  by_cases h : v < real.length
  · have hsame : v = i := (hsplit.own v h).symm.trans hremap
    subst hsame
    obtain ⟨type', -, htype', -, -, -, hnarrow⟩ := hsplit.original v h
    cases hv.symm.trans htype'
    exact hnarrow h hroom
  · exact (hsplit.added v type (by omega) hv).2.1

theorem SplitUpTo.extendBits (hsplit : SplitUpTo real real.length table)
    (hcount : real.length ≤ maxMemoryTypes) (hsome : 0 < real.length)
    (hbits : ∀ i, real.length ≤ i → bits.getLsbD i = false) :
    ∃ extended, extendBits ⟨real, table⟩ bits = some extended ∧
      (∀ v < table.types.length, extended.getLsbD v = bits.getLsbD (table.remap v)) ∧
      ∀ v, extended.getLsbD v = true → v < table.types.length := by
  have hgrown : real.length ≤ table.types.length := by
    rw [hsplit.length]
    exact le_min hcount (Nat.le_add_right _ _)
  have hmax : table.types.length ≤ 32 := by
    rw [hsplit.length]
    exact min_le_left _ _
  have hread : ∀ v, ((List.range' real.length (table.types.length - real.length)).foldl
      (extendBit table.remap) bits).getLsbD v =
        if real.length ≤ v ∧ v < table.types.length then bits.getLsbD (table.remap v)
        else bits.getLsbD v := by
    intro v
    have h := getLsbD_extendBits table.remap bits real.length
      (table.types.length - real.length) v (by omega)
      (fun v _ hlt => hsplit.remap_lt (by omega))
    rw [h, Nat.add_sub_cancel' hgrown]
  refine ⟨_, if_pos (by show 0 < table.types.length; omega), fun v hv => ?_, fun v hv => ?_⟩
  · rw [hread]
    split_ifs with h
    · rfl
    · rw [hsplit.own v (by omega)]
  · rw [hread] at hv
    split_ifs at hv with h
    · exact h.2
    · by_contra hlt
      rw [hbits v (by omega)] at hv
      cases hv

/-- **Virtual memory types.**  Every table of real types that the driver can report has virtual
types, and these are sound: they lead to real types that have all their properties, a type that is
both device local and host visible is split unless the table was full at its turn, and the types
that an application may pick from extended requirements are accepted by an allocation and allowed
by the driver. -/
theorem virtual_types_sound (remap : Nat → Nat) (hcount : real.length ≤ maxMemoryTypes) :
    (real ≠ [] → ∃ st, setupVirtualMemory remap real = some st) ∧
      ∀ st, setupVirtualMemory remap real = some st → Sound real st := by
  constructor
  · intro hreal
    exact ⟨_, if_pos (List.length_pos_iff.mpr hreal)⟩
  · intro st hst
    obtain ⟨hsome, rfl⟩ := setupVirtualMemory_eq_some_iff.mp hst
    have hsplit := splitTypes_upTo remap hcount le_rfl
    constructor
    · intro v hv
      exact hsplit.remap_lt hv
    · intro v type hv
      by_cases h : v < real.length
      · obtain ⟨type', origin, htype', horigin, hwithin, -⟩ := hsplit.original v h
        cases hv.symm.trans htype'
        exact ⟨origin, by rw [hsplit.own v h]; exact horigin, hwithin⟩
      · exact (hsplit.added v type (by omega) hv).2.2
    · intro i origin horigin _
      have hi := (List.getElem?_eq_some_iff.mp horigin).1
      by_cases hroom : real.length + broadBefore real i < maxMemoryTypes
      · exact Or.inl fun v type hv hremap => hsplit.not_broad hi hroom hv hremap
      · exact Or.inr (by omega)
    · intro bits hbits
      obtain ⟨extended, hextended, hread, hinside⟩ := hsplit.extendBits hcount hsome hbits
      refine ⟨extended, hextended, hread, fun v hv => ?_⟩
      have hlt := hinside v hv
      have hremap := hsplit.remap_lt hlt
      refine ⟨_, if_pos ⟨hsome, hlt, hremap⟩, rfl, hremap, ?_⟩
      rw [← hread v hlt]
      exact hv

/-- A table with two types to be split. -/
def unifiedMemory : List MemoryType := [⟨0x1, 0⟩, ⟨0xf, 0⟩, ⟨0x6, 1⟩, ⟨0x7, 0⟩]

theorem virtual_types_sound_unified :
    ∃ st, setupVirtualMemory (fun _ => 0) unifiedMemory = some st ∧ Sound unifiedMemory st ∧
      st.virtual.types = [⟨0x1, 0⟩, ⟨0x1, 0⟩, ⟨0x6, 1⟩, ⟨0x1, 0⟩, ⟨0xe, 0⟩, ⟨0x6, 0⟩] := by
  have hcount : unifiedMemory.length ≤ maxMemoryTypes := by decide
  have hsound := virtual_types_sound (fun _ => 0) hcount
  obtain ⟨st, hst⟩ := hsound.1 (by decide)
  refine ⟨st, hst, hsound.2 st hst, ?_⟩
  obtain ⟨-, rfl⟩ := setupVirtualMemory_eq_some_iff.mp hst
  decide

end VirtualMemoryTypes
end Lavatube
