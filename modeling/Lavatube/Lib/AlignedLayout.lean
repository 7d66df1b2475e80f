import Mathlib.Tactic

/-!
# Aligned ranges one behind the other

Ranges are laid out from a place on, each at the next multiple of an alignment.

* `alignUp` — the next multiple; `maskUp` — how it is computed with 64 bits and a mask.
* `toNat_maskUp` — the two agree, but at the end of the numbers of 64 bits the latter is zero.
* `layoutEnd` — the end of the last range.
-/

namespace AlignedLayout

/-- The next multiple of an alignment. -/
def alignUp (a v : Nat) : Nat := (v + a - 1) / a * a

/-- The end behind ranges of these sizes; an empty range takes no place. -/
def layoutEnd (a : Nat) : Nat → List Nat → Nat
  | stop, [] => stop
  | stop, size :: sizes =>
      if size = 0 then layoutEnd a stop sizes else layoutEnd a (alignUp a stop + size) sizes

section

variable {a v : Nat}

theorem dvd_alignUp : a ∣ alignUp a v := Dvd.intro_left _ rfl

theorem le_alignUp (ha : 0 < a) : v ≤ alignUp a v := by
  have hdiv := Nat.div_add_mod' (v + a - 1) a
  have hmod := Nat.mod_lt (v + a - 1) ha
  unfold alignUp
  omega

/-- It is the least one. -/
theorem alignUp_le {n : Nat} (hle : v ≤ n) (hdvd : a ∣ n) : alignUp a v ≤ n := by
  rcases a.eq_zero_or_pos with rfl | ha
  · simp [alignUp]
  · obtain ⟨q, rfl⟩ := hdvd
    unfold alignUp
    rw [Nat.mul_comm a q]
    refine Nat.mul_le_mul_right a (Nat.lt_succ_iff.mp ?_)
    rw [Nat.div_lt_iff_lt_mul ha, Nat.succ_mul, Nat.mul_comm q a]
    omega

theorem alignUp_zero : alignUp a 0 = 0 :=
  Nat.le_zero.mp (alignUp_le le_rfl (dvd_zero a))

theorem le_layoutEnd (ha : 0 < a) (stop : Nat) (sizes : List Nat) :
    stop ≤ layoutEnd a stop sizes := by
  induction sizes generalizing stop with
  | nil => exact le_rfl
  | cons size sizes ih =>
      rw [layoutEnd]
      split_ifs
      · exact ih stop
      · have hup := le_alignUp (v := stop) ha
        have hrest := ih (alignUp a stop + size)
        omega

end

/-- Clearing the lowest bits. -/
theorem toNat_and_not_mask (x : UInt64) {alignment : UInt64} {k : Nat} (hk : k < 64)
    (hpower : alignment.toNat = 2 ^ k) :
    (x &&& ~~~(alignment - 1)).toNat = x.toNat / 2 ^ k * 2 ^ k := by
  have hpos : 0 < 2 ^ k := Nat.two_pow_pos k
  have hlt : 2 ^ k < 2 ^ 64 := Nat.pow_lt_pow_right (by norm_num) hk
  have hmask : (alignment - 1).toBitVec = BitVec.ofNat 64 (2 ^ k - 1) := by
    rw [← BitVec.toNat_inj, UInt64.toNat_toBitVec, BitVec.toNat_ofNat,
      Nat.mod_eq_of_lt (by omega), UInt64.toNat_sub_of_le, hpower]
    · rfl
    · rw [UInt64.le_iff_toNat_le, hpower]
      exact hpos
  have hbits : (x &&& ~~~(alignment - 1)).toBitVec = (x.toBitVec >>> k) <<< k := by
    show x.toBitVec &&& ~~~(alignment - 1).toBitVec = _
    rw [hmask]
    ext i hi
    have hlowest : (BitVec.ofNat 64 (2 ^ k - 1))[i] = decide (i < k) := by
      rw [← BitVec.getLsbD_eq_getElem, BitVec.getLsbD_ofNat, Nat.testBit_two_pow_sub_one]
      simp [hi]
    simp only [BitVec.getElem_and, BitVec.getElem_not, BitVec.getElem_shiftLeft, hlowest]
    by_cases hlow : i < k
    · simp [hlow]
    · simp [hlow, Nat.add_sub_cancel' (Nat.not_lt.mp hlow), BitVec.getLsbD_eq_getElem hi]
  rw [← UInt64.toNat_toBitVec, hbits, BitVec.toNat_shiftLeft, BitVec.toNat_ushiftRight,
    UInt64.toNat_toBitVec, Nat.shiftLeft_eq, Nat.shiftRight_eq_div_pow, Nat.mod_eq_of_lt]
  exact (Nat.div_mul_le_self _ _).trans_lt x.toNat_lt

/-- The next multiple of a power of two, computed with a mask. -/
def maskUp (value alignment : UInt64) : UInt64 :=
  if alignment ≤ 1 then value else (value + alignment - 1) &&& ~~~(alignment - 1)

/-- **The mask** computes the next multiple, or zero where that is no number of 64 bits. -/
theorem toNat_maskUp (value : UInt64) {alignment : UInt64} {k : Nat} (hk : k < 64)
    (hpower : alignment.toNat = 2 ^ k) :
    (maskUp value alignment).toNat = alignUp (2 ^ k) value.toNat % 2 ^ 64 := by
  have hvalue := value.toNat_lt
  unfold maskUp
  split_ifs with hone
  · rw [UInt64.le_iff_toNat_le, hpower] at hone
    have hpos : 0 < 2 ^ k := Nat.two_pow_pos k
    have hunit : 2 ^ k = 1 := le_antisymm hone hpos
    rw [hunit, alignUp, Nat.mod_eq_of_lt]
    · simp
    · simpa using hvalue
  · rw [toNat_and_not_mask _ hk hpower]
    rw [UInt64.le_iff_toNat_le, hpower] at hone
    replace hone : 1 < 2 ^ k := Nat.not_le.mp hone
    have hsum : (value + alignment - 1).toNat = (value.toNat + 2 ^ k - 1) % 2 ^ 64 := by
      have halignment := alignment.toNat_lt
      rw [UInt64.toNat_sub, UInt64.toNat_add, hpower, UInt64.toNat_one]
      omega
    have hdvd : 2 ^ k ∣ 2 ^ 64 := pow_dvd_pow 2 hk.le
    have hlt : 2 ^ k < 2 ^ 64 := Nat.pow_lt_pow_right (by norm_num) hk
    rw [hsum]
    generalize 2 ^ k = a at hone hdvd hlt ⊢
    have hpos : 0 < a := by omega
    by_cases hsmall : value.toNat + a - 1 < 2 ^ 64
    · have hle := Nat.div_mul_le_self (value.toNat + a - 1) a
      rw [Nat.mod_eq_of_lt hsmall, alignUp, Nat.mod_eq_of_lt (by omega)]
    · -- the sum wraps, and the multiple is the first number that has more than 64 bits
      have hend : alignUp a value.toNat = 2 ^ 64 := by
        refine le_antisymm (alignUp_le hvalue.le hdvd) ?_
        calc 2 ^ 64 = 2 ^ 64 / a * a := (Nat.div_mul_cancel hdvd).symm
          _ ≤ (value.toNat + a - 1) / a * a :=
            Nat.mul_le_mul_right a (Nat.div_le_div_right (Nat.not_lt.mp hsmall))
      rw [hend, Nat.mod_self, Nat.div_eq_of_lt, Nat.zero_mul]
      omega

end AlignedLayout
