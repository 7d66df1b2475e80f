import Lavatube.Lib.Transition

/-!
# The memory pool for function arguments

The `memory_pool` of `containers.h` hands out blocks of one buffer from front to
back.  Both allocation functions compute the space behind the request first and
then ask `std::align` to fit the request into that space.

* `stdAlign` — `std::align` on addresses.
* `MemoryPool.allocate`, `MemoryPool.allocateAligned` — the two allocation functions.
* `Sound`, `Complete` — blocks are apart and in the pool; no request that fits is refused.
* `Roomy` — the requests that both functions answer rightly.
* `Pool.allocateBytes_of_fitsTwice` — the block a request gets, and when it gets one.
* `sound_and_complete_iff` — a run is sound and complete throughout exactly if its requests
  are roomy: a request is refused unless the room behind the padding holds it twice.
-/

namespace Lavatube
namespace MemoryPool

open Transition

/-- The bytes up to the next multiple of `alignment`. -/
def padding (alignment address : Nat) : Nat :=
  (alignment - address % alignment) % alignment

/-- The first address from `address` on that is a multiple of `alignment`. -/
def nextAligned (alignment address : Nat) : Nat := address + padding alignment address

/-- `std::align`: the aligned address and the space that is left behind it, or `none` where
the size does not fit. -/
def stdAlign (alignment size address space : Nat) : Option (Nat × Nat) :=
  if size + padding alignment address ≤ space then
    some (address + padding alignment address, space - padding alignment address)
  else
    none

section Alignment

variable {alignment address : Nat}

theorem dvd_nextAligned (hpos : 0 < alignment) :
    alignment ∣ nextAligned alignment address := by
  unfold nextAligned padding
  have hlt := Nat.mod_lt address hpos
  by_cases hzero : address % alignment = 0
  · rw [hzero, Nat.sub_zero, Nat.mod_self, Nat.add_zero]
    exact Nat.dvd_of_mod_eq_zero hzero
  · rw [Nat.mod_eq_of_lt (show alignment - address % alignment < alignment by omega)]
    have hsplit := Nat.div_add_mod address alignment
    refine ⟨address / alignment + 1, ?_⟩
    rw [Nat.mul_add, Nat.mul_one]
    omega

theorem le_nextAligned : address ≤ nextAligned alignment address := Nat.le_add_right ..

end Alignment

/-- What the allocation functions ask of the type `T`. -/
structure ElementType where
  /-- `sizeof(T)` -/
  size : Nat
  /-- `alignof(T)` -/
  alignment : Nat
  size_pos : 0 < size
  alignment_pow : alignment.isPowerOfTwo

/-- `class memory_pool`: the address and the size of the vector `pool`, and `index`. -/
structure Pool where
  /-- `pool.data()` -/
  data : Nat
  /-- `pool.size()` -/
  size : Nat
  index : Nat := 0
  /-- The constructor computes the size in an `unsigned`. -/
  size_lt : size < 2 ^ 32
  index_le : index ≤ size

namespace Pool

/-- The constructor, with the address that the vector gets. -/
def create (mbs data : Nat) : Pool where
  data := data
  size := mbs * 1024 * 1024 % 2 ^ 32
  size_lt := Nat.mod_lt _ (by decide)
  index_le := Nat.zero_le _

/-- The end of the buffer. -/
def limit (p : Pool) : Nat := p.data + p.size

/-- What `allocate` and `allocate_aligned` do once they have the alignment: `size_t`
arithmetic wraps at `2 ^ 64`. -/
def allocateBytes (p : Pool) (count sizeofT alignment : Nat) : Pool × Option Nat :=
  if count = 0 then (p, none)
  else
    let allocsize := count * sizeofT % 2 ^ 64
    if p.size < (p.index + allocsize) % 2 ^ 64 then (p, none)
    else
      let space := p.size - (p.index + allocsize) % 2 ^ 64
      match stdAlign alignment allocsize (p.data + p.index) space with
      | none => (p, none)
      | some (retval, left) =>
          ({ p with index := p.size - left, index_le := Nat.sub_le _ _ }, some retval)

/-- `memory_pool::allocate<T>`. -/
def allocate (p : Pool) (T : ElementType) (count : Nat) : Pool × Option Nat :=
  p.allocateBytes count T.size (max T.alignment 2)

/-- `memory_pool::allocate_aligned<T>`. -/
def allocateAligned (p : Pool) (T : ElementType) (count alignment : Nat) : Pool × Option Nat :=
  p.allocateBytes count T.size alignment

/-- `memory_pool::reset`. -/
def reset (p : Pool) : Pool := { p with index := 0, index_le := Nat.zero_le _ }

/-- The padding in front of a block at the current index. -/
def pad (p : Pool) (alignment : Nat) : Nat := padding alignment (p.data + p.index)

/-- The block behind the index holds the request. -/
def Fits (p : Pool) (bytes alignment : Nat) : Prop :=
  p.index + p.pad alignment + bytes ≤ p.size

/-- The room behind the padding holds the request, reduced to a `size_t`, twice. -/
def FitsTwice (p : Pool) (bytes alignment : Nat) : Prop :=
  p.index + p.pad alignment + 2 * (bytes % 2 ^ 64) ≤ p.size

instance (p : Pool) (bytes alignment : Nat) : Decidable (p.Fits bytes alignment) :=
  inferInstanceAs (Decidable (_ ≤ _))

instance (p : Pool) (bytes alignment : Nat) : Decidable (p.FitsTwice bytes alignment) :=
  inferInstanceAs (Decidable (_ ≤ _))

/-- **What an allocation answers.**  A request for elements is served at the next aligned
address exactly if it fits twice, and then the index stands right behind the block. -/
theorem allocateBytes_of_fitsTwice {p : Pool} {count sizeofT alignment : Nat}
    (hcount : count ≠ 0) (htwice : p.FitsTwice (count * sizeofT) alignment) :
    (p.allocateBytes count sizeofT alignment).2 =
        some (nextAligned alignment (p.data + p.index)) ∧
      (p.allocateBytes count sizeofT alignment).1.data = p.data ∧
      (p.allocateBytes count sizeofT alignment).1.size = p.size ∧
      (p.allocateBytes count sizeofT alignment).1.index =
        p.index + p.pad alignment + count * sizeofT % 2 ^ 64 := by
  have hsize := p.size_lt
  unfold FitsTwice pad at htwice
  have hnowrap : (p.index + count * sizeofT % 2 ^ 64) % 2 ^ 64 =
      p.index + count * sizeofT % 2 ^ 64 :=
    Nat.mod_eq_of_lt (by omega)
  have hspace : count * sizeofT % 2 ^ 64 + padding alignment (p.data + p.index) ≤
      p.size - (p.index + count * sizeofT % 2 ^ 64) := by omega
  unfold allocateBytes
  simp only [if_neg hcount, hnowrap,
    if_neg (show ¬ p.size < p.index + count * sizeofT % 2 ^ 64 by omega), stdAlign,
    if_pos hspace]
  refine ⟨rfl, trivial, trivial, ?_⟩
  unfold pad
  omega

theorem allocateBytes_of_not_fitsTwice {p : Pool} {count sizeofT alignment : Nat}
    (htwice : ¬ p.FitsTwice (count * sizeofT) alignment) :
    p.allocateBytes count sizeofT alignment = (p, none) := by
  have hsize := p.size_lt
  have hindex := p.index_le
  unfold FitsTwice pad at htwice
  unfold allocateBytes
  by_cases hcount : count = 0
  · rw [if_pos hcount]
  · rw [if_neg hcount]
    by_cases hbehind : p.size < (p.index + count * sizeofT % 2 ^ 64) % 2 ^ 64
    · simp only [if_pos hbehind]
    · -- also where the sum wraps: then the request alone is larger than the pool
      have hspace : ¬ count * sizeofT % 2 ^ 64 + padding alignment (p.data + p.index) ≤
          p.size - (p.index + count * sizeofT % 2 ^ 64) % 2 ^ 64 := by
        have hlt := Nat.mod_lt (count * sizeofT) (show 0 < 2 ^ 64 by decide)
        by_cases hwrap : p.index + count * sizeofT % 2 ^ 64 < 2 ^ 64
        · rw [Nat.mod_eq_of_lt hwrap] at hbehind ⊢
          omega
        · omega
      simp only [if_neg hbehind, stdAlign, if_neg hspace]

end Pool

/-- The calls of the pool. -/
inductive Call where
  | allocate (T : ElementType) (count : Nat)
  | allocateAligned (T : ElementType) (count alignment : Nat) (hpow : alignment.isPowerOfTwo)
  | reset

/-- A request with its answer: the bytes that the caller uses, not reduced to a `size_t`. -/
structure Served where
  bytes : Nat
  alignment : Nat
  block : Option Nat
  deriving DecidableEq, Repr

/-- The pool together with what it served since the last reset, newest first. -/
structure State where
  pool : Pool
  served : List Served := []

namespace State

/-- Note a request and its answer. -/
def record (s : State) (bytes alignment : Nat) (answer : Pool × Option Nat) : State where
  pool := answer.1
  served := ⟨bytes, alignment, answer.2⟩ :: s.served

/-- The behaviour of both allocation functions, with the request noted. -/
def request (s : State) (count sizeofT alignment : Nat) : State :=
  s.record (count * sizeofT) alignment (s.pool.allocateBytes count sizeofT alignment)

end State

/-- One call; no call is refused. -/
def step (s : State) : Call → Option State
  | .allocate T count =>
      some (s.record (count * T.size) (max T.alignment 2) (s.pool.allocate T count))
  | .allocateAligned T count alignment _ =>
      some (s.record (count * T.size) alignment (s.pool.allocateAligned T count alignment))
  | .reset => some { pool := s.pool.reset }

/-- The end of the blocks served so far; `data` before the first one. -/
def blocksEnd (data : Nat) : List Served → Nat
  | [] => data
  | r :: earlier =>
      match r.block with
      | none => blocksEnd data earlier
      | some start => max (start + r.bytes) (blocksEnd data earlier)

/-- The block lies in the pool and is aligned as requested. -/
def Served.Placed (p : Pool) (r : Served) : Prop :=
  ∀ start, r.block = some start →
    p.data ≤ start ∧ start + r.bytes ≤ p.limit ∧ r.alignment ∣ start

/-- No byte is in both blocks. -/
def Served.Apart (r q : Served) : Prop :=
  ∀ a b, r.block = some a → q.block = some b → a + r.bytes ≤ b ∨ b + q.bytes ≤ a

/-- The blocks served lie in the pool, are aligned as requested and pairwise disjoint. -/
def State.Sound (s : State) : Prop :=
  (∀ r ∈ s.served, r.Placed s.pool) ∧ s.served.Pairwise Served.Apart

/-- Every request was served for which the next aligned address behind the blocks before it
left enough bytes in the pool. -/
def CompleteFrom (p : Pool) : List Served → Prop
  | [] => True
  | r :: earlier =>
      (0 < r.bytes →
        nextAligned r.alignment (blocksEnd p.data earlier) + r.bytes ≤ p.limit →
        r.block ≠ none) ∧ CompleteFrom p earlier

/-- Every request was served that fitted. -/
def State.Complete (s : State) : Prop := CompleteFrom s.pool s.served

/-- The request of `bytes` bytes fits twice exactly if it fits once. -/
def Pool.Roomy (p : Pool) (bytes alignment : Nat) : Prop :=
  p.FitsTwice bytes alignment ↔ p.Fits bytes alignment

/-- The calls that are answered rightly. -/
def Roomy (s : State) : Call → Prop
  | .allocate T count => s.pool.Roomy (count * T.size) (max T.alignment 2)
  | .allocateAligned T count alignment _ => s.pool.Roomy (count * T.size) alignment
  | .reset => True

/-- What roomy calls keep: the blocks end at the index. -/
structure Inv (s : State) : Prop where
  sound : s.Sound
  complete : s.Complete
  index : blocksEnd s.pool.data s.served = s.pool.data + s.pool.index

theorem inv_init {p : Pool} (hindex : p.index = 0) : Inv { pool := p } where
  sound := ⟨fun _ h => absurd h List.not_mem_nil, List.Pairwise.nil⟩
  complete := trivial
  index := by simp [blocksEnd, hindex]

theorem le_blocksEnd (data : Nat) {served : List Served} {r : Served} {start : Nat}
    (hmem : r ∈ served) (hblock : r.block = some start) :
    start + r.bytes ≤ blocksEnd data served := by
  induction served with
  | nil => cases hmem
  | cons q earlier ih =>
      unfold blocksEnd
      rcases List.mem_cons.mp hmem with rfl | hmem
      · rw [hblock]
        exact le_max_left _ _
      · have hle := ih hmem
        cases q.block with
        | none => exact hle
        | some start => exact hle.trans (le_max_right _ _)

theorem CompleteFrom.congr {p q : Pool} {served : List Served} (hdata : q.data = p.data)
    (hsize : q.size = p.size) (h : CompleteFrom p served) : CompleteFrom q served := by
  induction served with
  | nil => trivial
  | cons r earlier ih =>
      refine ⟨?_, ih h.2⟩
      rw [hdata, Pool.limit, hdata, hsize]
      exact h.1

/-- A request that is answered with `none` and did not fit keeps the invariant. -/
theorem Inv.refused {s : State} (hinv : Inv s) {bytes alignment : Nat}
    (hnot : 0 < bytes → ¬ s.pool.Fits bytes alignment) :
    Inv (s.record bytes alignment (s.pool, none)) where
  sound := by
    refine ⟨fun r hr start hstart => ?_,
      List.pairwise_cons.mpr ⟨fun q _ a b ha => ?_, hinv.sound.2⟩⟩
    · rcases List.mem_cons.mp hr with rfl | hr
      · cases hstart
      · exact hinv.sound.1 r hr start hstart
    · cases ha
  complete := by
    refine ⟨fun hpos hfits => absurd ?_ (hnot hpos), hinv.complete⟩
    simp only [State.record, hinv.index, nextAligned, Pool.limit] at hfits
    unfold Pool.Fits Pool.pad
    omega
  index := hinv.index

/-- A request that is served right behind the padding keeps the invariant. -/
theorem Inv.served {s : State} (hinv : Inv s) {bytes alignment : Nat} {next : Pool}
    (halign : 0 < alignment) (hfits : s.pool.Fits bytes alignment)
    (hdata : next.data = s.pool.data) (hsize : next.size = s.pool.size)
    (hindex : next.index = s.pool.index + s.pool.pad alignment + bytes) :
    Inv (s.record bytes alignment
      (next, some (nextAligned alignment (s.pool.data + s.pool.index)))) where
  sound := by
    have hlimit : next.limit = s.pool.limit := by rw [Pool.limit, Pool.limit, hdata, hsize]
    refine ⟨fun r hr start hstart => ?_,
      List.pairwise_cons.mpr ⟨fun q hq a b ha hb => ?_, hinv.sound.2⟩⟩
    · simp only [State.record] at hr ⊢
      rw [hdata, hlimit]
      rcases List.mem_cons.mp hr with rfl | hr
      · cases hstart
        refine ⟨?_, ?_, dvd_nextAligned halign⟩
        · exact (Nat.le_add_right _ _).trans le_nextAligned
        · unfold Pool.Fits Pool.pad at hfits
          simp only [nextAligned, Pool.limit]
          omega
      · exact hinv.sound.1 r hr start hstart
    · -- the older block ends at the index or in front of it
      cases ha
      have hend := le_blocksEnd s.pool.data hq hb
      rw [hinv.index] at hend
      exact Or.inr (hend.trans le_nextAligned)
  complete := by
    refine ⟨fun _ _ => by simp, ?_⟩
    exact CompleteFrom.congr hdata hsize hinv.complete
  index := by
    simp only [State.record, blocksEnd, hdata, hinv.index, hindex]
    unfold nextAligned Pool.pad
    omega

/-- **Requests.**  Roomy requests keep the invariant. -/
theorem Inv.request {s : State} (hinv : Inv s) {T : ElementType} {count alignment : Nat}
    (halign : 0 < alignment) (hroomy : s.pool.Roomy (count * T.size) alignment) :
    Inv (s.request count T.size alignment) := by
  unfold State.request
  by_cases hcount : count = 0
  · have hanswer : s.pool.allocateBytes count T.size alignment = (s.pool, none) := by
      unfold Pool.allocateBytes
      rw [if_pos hcount]
    rw [hanswer]
    exact hinv.refused fun hpos => by simp [hcount] at hpos
  · by_cases htwice : s.pool.FitsTwice (count * T.size) alignment
    · have hfits := hroomy.mp htwice
      obtain ⟨hblock, hdata, hsize, hindex⟩ :=
        Pool.allocateBytes_of_fitsTwice hcount htwice
      have hsmall : count * T.size % 2 ^ 64 = count * T.size := by
        have hlt := s.pool.size_lt
        unfold Pool.Fits at hfits
        exact Nat.mod_eq_of_lt (by omega)
      rw [hsmall] at hindex
      have hnext := hinv.served halign hfits hdata hsize hindex
      rwa [← hblock] at hnext
    · rw [Pool.allocateBytes_of_not_fitsTwice htwice]
      exact hinv.refused fun _ hfits => htwice (hroomy.mpr hfits)

/-- A request behind which the state is sound and complete was roomy. -/
theorem roomy_of_good {s : State} (hinv : Inv s) {T : ElementType} {count alignment : Nat}
    (hsound : (s.request count T.size alignment).Sound)
    (hcomplete : (s.request count T.size alignment).Complete) :
    s.pool.Roomy (count * T.size) alignment := by
  by_cases hcount : count = 0
  · simp [Pool.Roomy, Pool.FitsTwice, Pool.Fits, hcount]
  · have hpos : 0 < count * T.size := Nat.mul_pos (Nat.pos_of_ne_zero hcount) T.size_pos
    constructor
    · intro htwice
      obtain ⟨hblock, hdata, hsize, -⟩ := Pool.allocateBytes_of_fitsTwice hcount htwice
      obtain ⟨-, hend, -⟩ := hsound.1 _ List.mem_cons_self _ hblock
      have hlimit : (s.request count T.size alignment).pool.limit = s.pool.limit :=
        congrArg₂ (· + ·) hdata hsize
      rw [hlimit] at hend
      simp only [Pool.limit, nextAligned] at hend
      unfold Pool.Fits Pool.pad
      omega
    · intro hfits
      by_contra htwice
      have hnone := Pool.allocateBytes_of_not_fitsTwice htwice
      unfold State.request at hcomplete
      rw [hnone] at hcomplete
      refine hcomplete.1 hpos ?_ rfl
      simp only [State.record, hinv.index, Pool.limit, nextAligned]
      unfold Pool.Fits Pool.pad at hfits
      omega

theorem step_inv {s next : State} {call : Call} (hinv : Inv s) (hroomy : Roomy s call)
    (hstep : step s call = some next) : Inv next := by
  cases call with
  | allocate T count =>
      cases hstep
      exact hinv.request (lt_max_of_lt_right (by decide)) hroomy
  | allocateAligned T count alignment hpow =>
      cases hstep
      exact hinv.request (Nat.pos_of_isPowerOfTwo hpow) hroomy
  | reset =>
      cases hstep
      exact inv_init rfl

theorem roomy_of_step {s next : State} {call : Call} (hinv : Inv s)
    (hstep : step s call = some next) (hgood : next.Sound ∧ next.Complete) : Roomy s call := by
  cases call with
  | allocate T count =>
      cases hstep
      exact roomy_of_good hinv hgood.1 hgood.2
  | allocateAligned T count alignment hpow =>
      cases hstep
      exact roomy_of_good hinv hgood.1 hgood.2
  | reset => trivial

theorem exec_isSome (s : State) (calls : List Call) : ∃ final, exec step s calls = some final := by
  have hstep : ∀ (s : State) (call : Call), True → True → ∃ next, step s call = some next ∧ True :=
    fun s call _ _ => by cases call <;> exact ⟨_, rfl, trivial⟩
  obtain ⟨final, hfinal, -⟩ := exec_progress hstep trivial (along_true step s calls)
  exact ⟨final, hfinal⟩

/-- **Disjoint and complete.**  In every state of a run on a fresh pool the blocks are aligned,
disjoint and in the pool, and no request that fitted was refused, if and only if every request
of the run fits twice where it fits once. -/
theorem sound_and_complete_iff (mbs data : Nat) (calls : List Call) :
    (∀ k middle, exec step { pool := Pool.create mbs data } (calls.take k) = some middle →
        middle.Sound ∧ middle.Complete) ↔
      Along step Roomy { pool := Pool.create mbs data } calls := by
  obtain ⟨final, hrun⟩ := exec_isSome { pool := Pool.create mbs data } calls
  refine prefixes_iff_along ?_ ?_ ?_ (inv_init rfl) hrun
  · intro s hinv
    exact ⟨hinv.sound, hinv.complete⟩
  · intro s call next hinv hroomy hstep
    exact step_inv hinv hroomy hstep
  · intro s call next hinv hstep hgood
    exact roomy_of_step hinv hstep hgood

/-- `char`. -/
def char : ElementType := ⟨1, 1, by decide, 0, rfl⟩

/-- A pool of one megabyte refuses the first request for 600000 bytes. -/
theorem half_full_pool_refuses :
    ¬ ∀ (calls : List Call) (final : State),
      exec step { pool := Pool.create 1 4096 } calls = some final →
      final.Sound ∧ final.Complete := by
  intro h
  have hlast := (h [.allocate char 600000] _ rfl).2
  refine hlast.1 (by decide) (by decide) ?_
  decide

end MemoryPool
end Lavatube
