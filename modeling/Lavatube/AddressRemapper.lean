import Mathlib.Data.List.MinMax
import Mathlib.Data.Prod.Lex
import Lavatube.Lib.OrderedMap

/-!
# Translation of captured device addresses

The `address_remapper` of `containers.h` keeps, for each captured base address, the
objects that had it, and translates an address inside one of them.  Several objects
may have the same base, ranges may nest, and objects stay in the map when they are
destroyed.

* `Remapper.add`, `Remapper.remove` — the calls that change the map.
* `chooseBest` — the or-chain of `choose_best` over the objects of one base.
* `Remapper.findCandidate` — the walk over the bases, from the address downwards.
* `rank` — the order in which `choose_best` prefers objects.
* `chooseBest_eq_argmax` — the or-chain picks the last greatest object.
* `Added` — what a sequence of calls leaves registered.
* `translation_picks_innermost` — the object and the translation of an address.
-/

namespace Lavatube
namespace AddressRemapper

/-- `trackedobject::states`. -/
inductive ObjectState where
  | uninitialized
  | initialized
  | created
  | destroyed
  | bound
  deriving DecidableEq, Repr

/-- The fields of the payload that the remapper reads.  A type without `is_state` is never
destroyed and never bound, as an object in state `created`. -/
structure Payload where
  state : ObjectState
  /-- The object type is `VK_OBJECT_TYPE_ACCELERATION_STRUCTURE_KHR`. -/
  accelerationStructure : Bool := false
  size : Nat
  deviceAddress : Nat
  deriving DecidableEq, Repr

/-- A pointer to a payload; 0 is `nullptr`. -/
abbrev Pointer := Nat

/-- What the pointers lead to at the time of a query. -/
abbrev Heap := Pointer → Payload

/-- The local variables of `choose_best`. -/
structure Best where
  obj : Pointer := 0
  size : Nat := 0
  hasAddr : Bool := false
  isBound : Bool := false
  isDestroyed : Bool := true

/-- `is_destroyed && obj->object_type != VK_OBJECT_TYPE_ACCELERATION_STRUCTURE_KHR`. -/
def Payload.skipped (o : Payload) : Bool :=
  decide (o.state = .destroyed) && !o.accelerationStructure

/-- The or-chain of `choose_best`. -/
def Best.replacedBy (best : Best) (o : Payload) : Bool :=
  let isBound := decide (o.state = .bound)
  let isDestroyed := decide (o.state = .destroyed)
  let hasAddr := decide (o.deviceAddress ≠ 0)
  decide (best.obj = 0) || (hasAddr && !best.hasAddr) ||
    (hasAddr == best.hasAddr && !isDestroyed && best.isDestroyed) ||
    (hasAddr == best.hasAddr && isBound && !best.isBound) ||
    (hasAddr == best.hasAddr && isDestroyed == best.isDestroyed && isBound == best.isBound &&
      (decide (best.size < o.size) || decide (o.size = best.size)))

/-- One round of the loop of `choose_best`; `offset` is `stored - base`. -/
def consider (heap : Heap) (offset : Nat) (best : Best) (obj : Pointer) : Best :=
  if obj = 0 then best
  else if (heap obj).skipped then best
  else if (heap obj).size = 0 then best
  else if (heap obj).size ≤ offset then best
  else if best.replacedBy (heap obj) then
    { obj := obj
      size := (heap obj).size
      hasAddr := decide ((heap obj).deviceAddress ≠ 0)
      isBound := decide ((heap obj).state = .bound)
      isDestroyed := decide ((heap obj).state = .destroyed) }
  else best

/-- `choose_best`; 0 where no object is eligible. -/
def chooseBest (heap : Heap) (entries : List Pointer) (base stored : Nat) : Pointer :=
  (entries.foldl (consider heap (stored - base)) {}).obj

/-- `class address_remapper`. -/
structure Remapper where
  remapping : OrderedMap Nat (List Pointer) := OrderedMap.empty

namespace Remapper

/-- `address_remapper::add`. -/
def add (r : Remapper) (addr : Nat) (obj : Pointer) : Remapper :=
  if obj = 0 ∨ addr = 0 then r
  else
    let entries := (r.remapping.find? addr).getD []
    if obj ∈ entries then r
    else { remapping := r.remapping.insert addr (entries ++ [obj]) }

/-- `address_remapper::remove`. -/
def remove (r : Remapper) (addr : Nat) (obj : Pointer) : Remapper :=
  if obj = 0 ∨ addr = 0 then r
  else
    match r.remapping.find? addr with
    | none => r
    | some entries =>
        let left := entries.filter (· ≠ obj)
        if left = [] then { remapping := r.remapping.erase addr }
        else { remapping := r.remapping.insert addr left }

/-- `find_candidate`: the object and its base, or `nullptr`. -/
def findCandidate (r : Remapper) (heap : Heap) (stored : Nat) : Option (Pointer × Nat) :=
  (r.remapping.downFrom stored).findSome? fun e =>
    let obj := chooseBest heap e.2 e.1 stored
    if obj = 0 then none else some (obj, e.1)

/-- `address_remapper::get_by_address`. -/
def getByAddress (r : Remapper) (heap : Heap) (stored : Nat) : Pointer :=
  match r.findCandidate heap stored with
  | none => 0
  | some (obj, _) => obj

/-- `address_remapper::translate_address`. -/
def translateAddress (r : Remapper) (heap : Heap) (stored : Nat) : Nat :=
  match r.findCandidate heap stored with
  | none => 0
  | some (obj, base) =>
      if (heap obj).deviceAddress = 0 then 0
      else ((heap obj).deviceAddress + (stored - base)) % 2 ^ 64

/-- `address_remapper::is_candidate`: also the value with its two halves swapped. -/
def isCandidate (r : Remapper) (heap : Heap) (stored : Nat) : Bool :=
  r.translateAddress heap stored ≠ 0 ||
    r.translateAddress heap (stored / 2 ^ 32 + stored % 2 ^ 32 * 2 ^ 32) ≠ 0

end Remapper

/-! ## The choice at one base -/

/-- The order of preference: a device address, not destroyed, bound, size. -/
def rank (o : Payload) : Bool ×ₗ Bool ×ₗ Bool ×ₗ Nat :=
  toLex (decide (o.deviceAddress ≠ 0), toLex (!decide (o.state = .destroyed),
    toLex (decide (o.state = .bound), o.size)))

/-- Not destroyed, or an acceleration structure; and the range of the object holds the offset. -/
def Eligible (heap : Heap) (offset : Nat) (obj : Pointer) : Prop :=
  obj ≠ 0 ∧ ((heap obj).state ≠ .destroyed ∨ (heap obj).accelerationStructure = true) ∧
    offset < (heap obj).size

instance (heap : Heap) (offset : Nat) (obj : Pointer) : Decidable (Eligible heap offset obj) :=
  inferInstanceAs (Decidable (_ ∧ _ ∧ _))

/-- The local variables describe the object chosen so far. -/
def Best.Describes (heap : Heap) (best : Best) : Prop :=
  best.obj ≠ 0 → best.size = (heap best.obj).size ∧
    best.hasAddr = decide ((heap best.obj).deviceAddress ≠ 0) ∧
    best.isBound = decide ((heap best.obj).state = .bound) ∧
    best.isDestroyed = decide ((heap best.obj).state = .destroyed)

/-- **The or-chain.**  It lets an object in exactly where its rank is not smaller: no object is
both destroyed and bound, so the missing comparison does no harm. -/
theorem replacedBy_iff {heap : Heap} {best : Best} (hdescribes : best.Describes heap)
    (hsome : best.obj ≠ 0) (o : Payload) :
    best.replacedBy o = true ↔ rank (heap best.obj) ≤ rank o := by
  obtain ⟨hsize, haddr, hbound, hdestroyed⟩ := hdescribes hsome
  unfold Best.replacedBy rank
  simp only [hsize, haddr, hbound, hdestroyed, decide_eq_false hsome]
  generalize (heap best.obj).size = size
  generalize (heap best.obj).state = state
  generalize decide ((heap best.obj).deviceAddress ≠ 0) = has
  generalize decide (o.deviceAddress ≠ 0) = has'
  generalize o.size = size'
  generalize o.state = state'
  simp only [Prod.Lex.toLex_le_toLex]
  cases has <;> cases has' <;> cases state <;> cases state' <;> simp <;> omega

/-- One round of the loop on an object that is not eligible. -/
theorem consider_of_not_eligible {heap : Heap} {offset : Nat} {best : Best} {obj : Pointer}
    (h : ¬ Eligible heap offset obj) : consider heap offset best obj = best := by
  unfold consider
  split_ifs with hnull hskip hzero hsize hreplace
  · rfl
  · rfl
  · rfl
  · rfl
  · refine absurd ⟨hnull, ?_, not_le.mp hsize⟩ h
    simp only [Payload.skipped, Bool.and_eq_true, decide_eq_true_eq, Bool.not_eq_true',
      not_and, Bool.not_eq_false] at hskip
    exact (em ((heap obj).state = .destroyed)).elim (fun hd => Or.inr (hskip hd)) Or.inl
  · rfl

theorem consider_of_eligible {heap : Heap} {offset : Nat} {best : Best} {obj : Pointer}
    (h : Eligible heap offset obj) : consider heap offset best obj =
      if best.replacedBy (heap obj) then
        { obj := obj
          size := (heap obj).size
          hasAddr := decide ((heap obj).deviceAddress ≠ 0)
          isBound := decide ((heap obj).state = .bound)
          isDestroyed := decide ((heap obj).state = .destroyed) }
      else best := by
  obtain ⟨hnull, hlive, hsize⟩ := h
  have hskip : (heap obj).skipped = false := by
    unfold Payload.skipped
    rcases hlive with hlive | hlive
    · simp [hlive]
    · simp [hlive]
  unfold consider
  rw [if_neg hnull, hskip, if_neg (by decide), if_neg (by omega), if_neg (by omega)]

/-- The pointer that an optional choice is. -/
def pointer (choice : Option Pointer) : Pointer := choice.getD 0

/-- The loop of `choose_best` keeps the last greatest of the eligible objects. -/
theorem foldl_consider (heap : Heap) (offset : Nat) (entries : List Pointer) :
    (entries.foldl (consider heap offset) {}).Describes heap ∧
      (entries.foldl (consider heap offset) {}).obj =
        pointer ((entries.filter (Eligible heap offset ·)).reverse.argmax
          fun obj => rank (heap obj)) := by
  induction entries using List.reverseRecOn with
  | nil => exact ⟨fun h => absurd rfl h, rfl⟩
  | append_singleton front obj ih =>
      obtain ⟨hdescribes, hchosen⟩ := ih
      rw [List.foldl_append, List.foldl_cons, List.foldl_nil, List.filter_append]
      generalize hbest : front.foldl (consider heap offset) {} = best at hdescribes hchosen ⊢
      by_cases hobj : Eligible heap offset obj
      · rw [consider_of_eligible hobj, List.filter_cons_of_pos (by simpa using hobj),
          List.filter_nil, List.reverse_append, List.reverse_singleton, List.singleton_append,
          List.argmax_cons]
        cases hmax : (front.filter (Eligible heap offset ·)).reverse.argmax
            fun obj => rank (heap obj) with
        | none =>
            rw [hmax] at hchosen
            have hreplace : best.replacedBy (heap obj) = true := by
              simp [Best.replacedBy, hchosen, pointer]
            rw [if_pos hreplace]
            exact ⟨fun _ => ⟨rfl, rfl, rfl, rfl⟩, rfl⟩
        | some chosen =>
            rw [hmax] at hchosen
            have hmem := List.argmax_mem hmax
            rw [List.mem_reverse, List.mem_filter, decide_eq_true_eq] at hmem
            have hsome : best.obj ≠ 0 := by
              rw [hchosen]
              exact hmem.2.1
            have hreplace := replacedBy_iff hdescribes hsome (heap obj)
            rw [hchosen] at hreplace
            simp only [pointer, Option.getD_some] at hreplace hchosen ⊢
            by_cases hlt : rank (heap obj) < rank (heap chosen)
            · rw [if_pos hlt, if_neg fun h => absurd (hreplace.mp h) (not_le.mpr hlt)]
              exact ⟨hdescribes, hchosen⟩
            · rw [if_neg hlt, if_pos (hreplace.mpr (not_lt.mp hlt))]
              exact ⟨fun _ => ⟨rfl, rfl, rfl, rfl⟩, rfl⟩
      · rw [consider_of_not_eligible hobj, List.filter_cons_of_neg (by simpa using hobj),
          List.filter_nil, List.append_nil]
        exact ⟨hdescribes, hchosen⟩

/-- **The choice.**  `choose_best` is the last greatest of the eligible objects. -/
theorem chooseBest_eq_argmax (heap : Heap) (entries : List Pointer) (base stored : Nat) :
    chooseBest heap entries base stored =
      pointer ((entries.filter (Eligible heap (stored - base) ·)).reverse.argmax
        fun obj => rank (heap obj)) :=
  (foldl_consider heap (stored - base) entries).2

/-- The choice among the entries of a base: none where none is eligible, and else an eligible
object of greatest rank. -/
theorem chooseBest_spec (heap : Heap) (entries : List Pointer) (base stored : Nat) :
    (chooseBest heap entries base stored = 0 ∧
        ∀ obj ∈ entries, ¬ Eligible heap (stored - base) obj) ∨
      (chooseBest heap entries base stored ∈ entries ∧
        Eligible heap (stored - base) (chooseBest heap entries base stored) ∧
        ∀ obj ∈ entries, Eligible heap (stored - base) obj →
          rank (heap obj) ≤ rank (heap (chooseBest heap entries base stored))) := by
  rw [chooseBest_eq_argmax]
  cases hmax : (entries.filter (Eligible heap (stored - base) ·)).reverse.argmax
      fun obj => rank (heap obj) with
  | none =>
      rw [List.argmax_eq_none, List.reverse_eq_nil_iff, List.filter_eq_nil_iff] at hmax
      exact Or.inl ⟨rfl, fun obj hobj => by simpa using hmax obj hobj⟩
  | some chosen =>
      have hmem := List.argmax_mem hmax
      rw [List.mem_reverse, List.mem_filter, decide_eq_true_eq] at hmem
      refine Or.inr ⟨hmem.1, hmem.2, fun obj hobj heligible => ?_⟩
      refine List.le_of_mem_argmax (f := fun obj => rank (heap obj)) ?_ hmax
      rw [List.mem_reverse, List.mem_filter, decide_eq_true_eq]
      exact ⟨hobj, heligible⟩

/-! ## What is registered -/

/-- The calls that change the map. -/
inductive Call where
  | add (addr : Nat) (obj : Pointer)
  | remove (addr : Nat) (obj : Pointer)
  deriving DecidableEq, Repr

/-- One call. -/
def Call.apply (r : Remapper) : Call → Remapper
  | .add addr obj => r.add addr obj
  | .remove addr obj => r.remove addr obj

/-- The map behind a sequence of calls. -/
def run (calls : List Call) : Remapper := calls.foldl Call.apply {}

/-- The object is an entry of the base. -/
def Remapper.Registered (r : Remapper) (base : Nat) (obj : Pointer) : Prop :=
  obj ∈ (r.remapping.find? base).getD []

/-- The last call for the object and the base added it; the null pointer and the address 0 are
never added. -/
def Added (calls : List Call) (base : Nat) (obj : Pointer) : Prop :=
  (obj ≠ 0 ∧ base ≠ 0) ∧ ∃ front back, calls = front ++ .add base obj :: back ∧
    .remove base obj ∉ back

theorem registered_add {r : Remapper} {addr base : Nat} {obj other : Pointer} :
    (r.add addr obj).Registered base other ↔
      r.Registered base other ∨ ((other ≠ 0 ∧ base ≠ 0) ∧ addr = base ∧ obj = other) := by
  unfold Remapper.add Remapper.Registered
  by_cases hnull : obj = 0 ∨ addr = 0
  · rw [if_pos hnull]
    constructor
    · exact Or.inl
    · rintro (h | ⟨⟨hother, hbase⟩, rfl, rfl⟩)
      · exact h
      · exact absurd hnull (by simp [hother, hbase])
  · rw [if_neg hnull]
    rw [not_or] at hnull
    by_cases hmem : obj ∈ (r.remapping.find? addr).getD []
    · simp only [if_pos hmem]
      constructor
      · exact Or.inl
      · rintro (h | ⟨-, rfl, rfl⟩)
        · exact h
        · exact hmem
    · simp only [if_neg hmem, OrderedMap.find?_insert]
      by_cases hbase : base = addr
      · subst hbase
        rw [if_pos rfl, Option.getD_some, List.mem_append, List.mem_singleton]
        constructor
        · rintro (h | rfl)
          · exact Or.inl h
          · exact Or.inr ⟨hnull, rfl, rfl⟩
        · rintro (h | ⟨-, -, rfl⟩)
          · exact Or.inl h
          · exact Or.inr rfl
      · rw [if_neg hbase]
        constructor
        · exact Or.inl
        · rintro (h | ⟨-, rfl, -⟩)
          · exact h
          · exact absurd rfl hbase

theorem registered_remove {r : Remapper} {addr base : Nat} {obj other : Pointer} :
    (r.remove addr obj).Registered base other ↔
      r.Registered base other ∧ ¬ ((obj ≠ 0 ∧ addr ≠ 0) ∧ addr = base ∧ obj = other) := by
  unfold Remapper.remove Remapper.Registered
  by_cases hnull : obj = 0 ∨ addr = 0
  · rw [if_pos hnull]
    have hkeep : ¬ (obj ≠ 0 ∧ addr ≠ 0) := fun h => hnull.elim h.1 h.2
    rw [and_iff_left fun h => hkeep h.1]
  · rw [if_neg hnull]
    rw [not_or] at hnull
    cases hfind : r.remapping.find? addr with
    | none =>
        rw [iff_self_and]
        rintro hmem ⟨-, rfl, rfl⟩
        rw [hfind] at hmem
        exact absurd hmem List.not_mem_nil
    | some entries =>
        simp only
        by_cases hbase : base = addr
        · subst hbase
          rw [hfind, Option.getD_some]
          have hleft : other ∈ entries.filter (· ≠ obj) ↔
              other ∈ entries ∧ ¬ ((obj ≠ 0 ∧ base ≠ 0) ∧ base = base ∧ obj = other) := by
            simp [List.mem_filter, hnull, eq_comm (a := other)]
          rw [← hleft]
          by_cases hempty : entries.filter (· ≠ obj) = []
          · rw [if_pos hempty, OrderedMap.find?_erase, if_pos rfl, hempty]
            rfl
          · rw [if_neg hempty, OrderedMap.find?_insert, if_pos rfl]
            rfl
        · rw [and_iff_left fun h => hbase h.2.1.symm]
          by_cases hempty : entries.filter (· ≠ obj) = []
          · rw [if_pos hempty, OrderedMap.find?_erase, if_neg hbase]
          · rw [if_neg hempty, OrderedMap.find?_insert, if_neg hbase]

/-- What one more call leaves added. -/
theorem added_snoc {calls : List Call} {call : Call} {base : Nat} {obj : Pointer} :
    Added (calls ++ [call]) base obj ↔
      ((obj ≠ 0 ∧ base ≠ 0) ∧ call = .add base obj) ∨
        (Added calls base obj ∧ call ≠ .remove base obj) := by
  constructor
  · rintro ⟨hnull, front, back, hcalls, hback⟩
    rcases List.eq_nil_or_concat' back with rfl | ⟨init, last, rfl⟩
    · obtain ⟨-, hcall⟩ := List.append_inj' hcalls rfl
      exact Or.inl ⟨hnull, List.singleton_inj.mp hcall⟩
    · rw [← List.cons_append, ← List.append_assoc] at hcalls
      obtain ⟨hfront, hcall⟩ := List.append_inj' hcalls rfl
      rw [List.mem_append, List.mem_singleton, not_or] at hback
      refine Or.inr ⟨⟨hnull, front, init, hfront, hback.1⟩, ?_⟩
      rw [List.singleton_inj.mp hcall]
      exact Ne.symm hback.2
  · rintro (⟨hnull, rfl⟩ | ⟨⟨hnull, front, back, rfl, hback⟩, hcall⟩)
    · exact ⟨hnull, calls, [], rfl, List.not_mem_nil⟩
    · refine ⟨hnull, front, back ++ [call], by simp, ?_⟩
      rw [List.mem_append, List.mem_singleton, not_or]
      exact ⟨hback, Ne.symm hcall⟩

/-- **Registration.**  An object is an entry of a base exactly if the last call for the two
added it. -/
theorem registered_run_iff {calls : List Call} {base : Nat} {obj : Pointer} :
    (run calls).Registered base obj ↔ Added calls base obj := by
  induction calls using List.reverseRecOn with
  | nil =>
      refine iff_of_false List.not_mem_nil ?_
      rintro ⟨-, front, back, hcalls, -⟩
      exact absurd hcalls.symm (by simp)
  | append_singleton calls call ih =>
      rw [added_snoc, ← ih, run, List.foldl_append, List.foldl_cons, List.foldl_nil, ← run]
      cases call with
      | add addr other =>
          simp only [Call.apply, registered_add]
          constructor
          · rintro (h | ⟨hnull, rfl, rfl⟩)
            · exact Or.inr ⟨h, by simp⟩
            · exact Or.inl ⟨hnull, rfl⟩
          · rintro (⟨hnull, hcall⟩ | ⟨h, -⟩)
            · cases hcall
              exact Or.inr ⟨hnull, rfl, rfl⟩
            · exact Or.inl h
      | remove addr other =>
          simp only [Call.apply, registered_remove]
          constructor
          · rintro ⟨h, hkeep⟩
            refine Or.inr ⟨h, fun hcall => ?_⟩
            cases hcall
            exact hkeep ⟨(ih.mp h).1, rfl, rfl⟩
          · rintro (⟨-, hcall⟩ | ⟨h, hcall⟩)
            · cases hcall
            · refine ⟨h, ?_⟩
              rintro ⟨-, rfl, rfl⟩
              exact hcall rfl

/-! ## The walk over the bases -/

/-- The object that an address is translated by: it is eligible, no eligible object has a base
nearer to the address, and none at the same base has a greater rank. -/
structure Picked (calls : List Call) (heap : Heap) (x base : Nat) (obj : Pointer) : Prop where
  added : Added calls base obj
  base_le : base ≤ x
  eligible : Eligible heap (x - base) obj
  innermost : ∀ base' obj', Added calls base' obj' → base' ≤ x →
    Eligible heap (x - base') obj' → base' ≤ base
  greatest : ∀ obj', Added calls base obj' → Eligible heap (x - base) obj' →
    rank (heap obj') ≤ rank (heap obj)

/-- An object is registered at a base exactly if an entry of the map has both. -/
theorem added_iff_mem {calls : List Call} {base : Nat} {obj : Pointer} :
    Added calls base obj ↔ ∃ entries, (base, entries) ∈ (run calls).remapping.entries ∧
      obj ∈ entries := by
  rw [← registered_run_iff, Remapper.Registered]
  constructor
  · intro hmem
    cases hfind : (run calls).remapping.find? base with
    | none =>
        rw [hfind] at hmem
        exact absurd hmem List.not_mem_nil
    | some entries =>
        rw [hfind] at hmem
        exact ⟨entries, OrderedMap.find?_eq_some_iff.mp hfind, hmem⟩
  · rintro ⟨entries, hentry, hmem⟩
    rw [OrderedMap.find?_eq_some_iff.mpr hentry]
    exact hmem

theorem findCandidate_none {calls : List Call} {heap : Heap} {x : Nat}
    (hnone : (run calls).findCandidate heap x = none) :
    ∀ base obj, Added calls base obj → base ≤ x → ¬ Eligible heap (x - base) obj := by
  intro base obj hadded hle
  obtain ⟨entries, hentry, hmem⟩ := added_iff_mem.mp hadded
  unfold Remapper.findCandidate at hnone
  rw [List.findSome?_eq_none_iff] at hnone
  have hround := hnone (base, entries) (OrderedMap.mem_downFrom_iff.mpr ⟨hentry, hle⟩)
  rcases chooseBest_spec heap entries base x with ⟨-, hall⟩ | ⟨-, hchosen, -⟩
  · exact hall obj hmem
  · simp only [if_neg hchosen.1] at hround
    cases hround

theorem findCandidate_some {calls : List Call} {heap : Heap} {x base : Nat} {obj : Pointer}
    (hsome : (run calls).findCandidate heap x = some (obj, base)) :
    Picked calls heap x base obj := by
  unfold Remapper.findCandidate at hsome
  rw [List.findSome?_eq_some_iff] at hsome
  obtain ⟨above, e, below, hsplit, hround, habove⟩ := hsome
  simp only at hround
  split_ifs at hround with hnull
  obtain ⟨rfl, rfl⟩ := Prod.mk.inj (Option.some.inj hround)
  have hmem : e ∈ (run calls).remapping.downFrom x := by
    rw [hsplit]
    exact List.mem_append_right _ List.mem_cons_self
  obtain ⟨hentry, hle⟩ := OrderedMap.mem_downFrom_iff.mp hmem
  rcases chooseBest_spec heap e.2 e.1 x with ⟨hzero, -⟩ | ⟨hchosen, heligible, hgreatest⟩
  · exact absurd hzero hnull
  · refine ⟨added_iff_mem.mpr ⟨e.2, hentry, hchosen⟩, hle, heligible, ?_, ?_⟩
    · intro base' obj' hadded hle' heligible'
      by_contra hlt
      obtain ⟨entries, hentry', hmem'⟩ := added_iff_mem.mp hadded
      have hvisit := OrderedMap.mem_downFrom_iff.mpr ⟨hentry', hle'⟩
      -- the walk met the base before `e`, where no object was eligible
      have hbefore : (base', entries) ∈ above := by
        have hdecreasing := OrderedMap.downFrom_decreasing (run calls).remapping x
        rw [hsplit] at hvisit hdecreasing
        rcases List.mem_append.mp hvisit with h | h
        · exact h
        · rcases List.mem_cons.mp h with h | h
          · cases h
            exact absurd le_rfl hlt
          · have := (List.pairwise_cons.mp (List.pairwise_append.mp hdecreasing).2.1).1 _ h
            exact absurd this.le hlt
      have hnone := habove _ hbefore
      rcases chooseBest_spec heap entries base' x with ⟨-, hall⟩ | ⟨-, hother, -⟩
      · exact hall obj' hmem' heligible'
      · simp only [if_neg hother.1] at hnone
        cases hnone
    · intro obj' hadded heligible'
      obtain ⟨entries, hentry', hmem'⟩ := added_iff_mem.mp hadded
      have hsame : entries = e.2 := by
        have h := OrderedMap.find?_eq_some_iff.mpr hentry
        rw [OrderedMap.find?_eq_some_iff.mpr hentry'] at h
        exact Option.some.inj h
      exact hgreatest obj' (hsame ▸ hmem') heligible'

/-- Two objects picked for an address have the same base and the same rank. -/
theorem Picked.rank_eq {calls calls' : List Call} {heap : Heap} {x base base' : Nat}
    {obj obj' : Pointer} (h : Picked calls heap x base obj)
    (h' : Picked calls' heap x base' obj')
    (hsame : ∀ b o, Added calls b o ↔ Added calls' b o) :
    base = base' ∧ rank (heap obj) = rank (heap obj') := by
  have hbase : base = base' := le_antisymm
    (h'.innermost base obj ((hsame _ _).mp h.added) h.base_le h.eligible)
    (h.innermost base' obj' ((hsame _ _).mpr h'.added) h'.base_le h'.eligible)
  subst hbase
  exact ⟨rfl, le_antisymm (h'.greatest obj ((hsame _ _).mp h.added) h.eligible)
    (h.greatest obj' ((hsame _ _).mpr h'.added) h'.eligible)⟩

/-- What `get_by_address` and `translate_address` answer. -/
theorem query_cases (calls : List Call) (heap : Heap) (x : Nat) :
    ((∀ base obj, Added calls base obj → base ≤ x → ¬ Eligible heap (x - base) obj) ∧
        (run calls).getByAddress heap x = 0 ∧ (run calls).translateAddress heap x = 0) ∨
      ∃ base, Picked calls heap x base ((run calls).getByAddress heap x) ∧
        (run calls).translateAddress heap x =
          if (heap ((run calls).getByAddress heap x)).deviceAddress = 0 then 0
          else ((heap ((run calls).getByAddress heap x)).deviceAddress + (x - base)) % 2 ^ 64 := by
  unfold Remapper.getByAddress Remapper.translateAddress
  cases hfound : (run calls).findCandidate heap x with
  | none => exact Or.inl ⟨findCandidate_none hfound, rfl, rfl⟩
  | some found =>
      obtain ⟨obj, base⟩ := found
      exact Or.inr ⟨base, findCandidate_some hfound, rfl⟩

/-- **Translation picks the innermost eligible object.**  After any calls, an address inside no
eligible object leads to `nullptr` and translates to 0.  Any other address leads to an object of
greatest rank at the nearest base with an eligible object, and translates to its place in that
object.  Calls that leave the same objects registered lead to objects of the same rank. -/
theorem translation_picks_innermost (calls : List Call) (heap : Heap) (x : Nat) :
    (((∀ base obj, Added calls base obj → base ≤ x → ¬ Eligible heap (x - base) obj) ∧
        (run calls).getByAddress heap x = 0 ∧ (run calls).translateAddress heap x = 0) ∨
      ∃ base, Picked calls heap x base ((run calls).getByAddress heap x) ∧
        (run calls).translateAddress heap x =
          if (heap ((run calls).getByAddress heap x)).deviceAddress = 0 then 0
          else ((heap ((run calls).getByAddress heap x)).deviceAddress + (x - base)) % 2 ^ 64) ∧
    ∀ calls', (∀ base obj, Added calls base obj ↔ Added calls' base obj) →
      ((run calls).getByAddress heap x = 0 ↔ (run calls').getByAddress heap x = 0) ∧
        rank (heap ((run calls).getByAddress heap x)) =
          rank (heap ((run calls').getByAddress heap x)) := by
  refine ⟨query_cases calls heap x, fun calls' hsame => ?_⟩
  rcases query_cases calls heap x with ⟨hnone, hget, -⟩ | ⟨base, hpicked, -⟩
  · rcases query_cases calls' heap x with ⟨-, hget', -⟩ | ⟨base', hpicked', -⟩
    · rw [hget, hget']
      exact ⟨Iff.rfl, rfl⟩
    · exact absurd hpicked'.eligible
        (hnone base' _ ((hsame _ _).mpr hpicked'.added) hpicked'.base_le)
  · rcases query_cases calls' heap x with ⟨hnone', -, -⟩ | ⟨base', hpicked', -⟩
    · exact absurd hpicked.eligible
        (hnone' base _ ((hsame _ _).mp hpicked.added) hpicked.base_le)
    · refine ⟨iff_of_false hpicked.eligible.1 hpicked'.eligible.1, ?_⟩
      exact (hpicked.rank_eq hpicked' hsame).2

end AddressRemapper
end Lavatube
