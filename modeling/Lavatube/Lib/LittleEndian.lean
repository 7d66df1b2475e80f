import Mathlib.Tactic

/-!
# Little-endian words

Fixed-width unsigned words stored least significant byte first, as `memcpy`
of an integer stores them on a little-endian machine.

* `encode width value` — the `width` bytes of `value`; higher bits are lost.
* `decode bytes` — the number stored in `bytes`.
* `decode_encode` — reading back a value that fits its width.
-/

namespace LittleEndian

/-- The `width` least significant bytes of `value`, lowest byte first. -/
def encode : Nat → Nat → List UInt8
  | 0, _ => []
  | width + 1, value => UInt8.ofNat value :: encode width (value / 256)

/-- The number whose bytes, lowest first, are `bytes`. -/
def decode : List UInt8 → Nat
  | [] => 0
  | byte :: bytes => byte.toNat + 256 * decode bytes

@[simp] theorem encode_length (width value : Nat) :
    (encode width value).length = width := by
  induction width generalizing value with
  | zero => rfl
  | succ width ih => simp [encode, ih]

/-- Only the value modulo the word size survives. -/
theorem decode_encode_mod (width value : Nat) :
    decode (encode width value) = value % 256 ^ width := by
  induction width generalizing value with
  | zero => simp [encode, decode, Nat.mod_one]
  | succ width ih =>
      have hbyte : (UInt8.ofNat value).toNat = value % 256 := by
        simp
      rw [encode, decode, ih, hbyte, pow_succ', Nat.mod_mul]

/-- A value that fits its width is read back unchanged. -/
theorem decode_encode {width value : Nat} (hvalue : value < 256 ^ width) :
    decode (encode width value) = value := by
  rw [decode_encode_mod, Nat.mod_eq_of_lt hvalue]

theorem decode_lt (bytes : List UInt8) : decode bytes < 256 ^ bytes.length := by
  induction bytes with
  | nil => simp [decode]
  | cons byte bytes ih =>
      have hbyte : byte.toNat < 256 := byte.toNat_lt
      rw [decode, List.length_cons, pow_succ]
      omega

/-- Bytes are written again as they were read. -/
theorem encode_decode (bytes : List UInt8) : encode bytes.length (decode bytes) = bytes := by
  induction bytes with
  | nil => rfl
  | cons byte bytes ih =>
      have hlow : UInt8.ofNat (byte.toNat + 256 * decode bytes) = byte := by
        rw [← UInt8.toNat_inj]
        simp
      have hbyte : byte.toNat < 256 := byte.toNat_lt
      have hrest : (byte.toNat + 256 * decode bytes) / 256 = decode bytes := by omega
      rw [decode, List.length_cons, encode, hlow, hrest, ih]

end LittleEndian
