import Lavatube.Lib.LittleEndian

/-!
# Words in a stream

A stream of bytes is read from the front: a number of bytes, a word, or an array of words, each
little-endian.  A read returns what is left of the stream, and `none` if the stream is too short.

* `take?`, `read` — bytes and words.
* `encodeAll`, `decodeAll` — arrays of words.
* `read_encode`, `decodeAll_encodeAll` — what was written is read back.
-/

namespace WordStream

open LittleEndian

/-- The first bytes of a stream, and the rest. -/
def take? (size : Nat) (input : List UInt8) : Option (List UInt8 × List UInt8) :=
  if size ≤ input.length then some (input.take size, input.drop size) else none

/-- A word, and the rest. -/
def read (width : Nat) (input : List UInt8) : Option (Nat × List UInt8) :=
  (take? width input).map fun (bytes, rest) => (decode bytes, rest)

/-- The bytes of an array of words. -/
def encodeAll (width : Nat) (values : List Nat) : List UInt8 :=
  (values.map (encode width)).flatten

/-- The words of an array. -/
def decodeAll (width : Nat) : Nat → List UInt8 → List Nat
  | 0, _ => []
  | count + 1, bytes => decode (bytes.take width) :: decodeAll width count (bytes.drop width)

section

variable {width size value count : Nat} {bytes input rest : List UInt8} {values : List Nat}

theorem take?_append (hsize : bytes.length = size) :
    take? size (bytes ++ rest) = some (bytes, rest) := by
  subst hsize
  simp [take?]

theorem take?_eq_some_iff :
    take? size input = some (bytes, rest) ↔ bytes.length = size ∧ input = bytes ++ rest := by
  constructor
  · intro htake
    unfold take? at htake
    split_ifs at htake with hsize
    obtain ⟨rfl, rfl⟩ := Prod.mk.inj (Option.some.inj htake)
    exact ⟨List.length_take_of_le hsize, (List.take_append_drop size input).symm⟩
  · rintro ⟨hsize, rfl⟩
    exact take?_append hsize

theorem read_encode (hvalue : value < 256 ^ width) :
    read width (encode width value ++ rest) = some (value, rest) := by
  simp only [read, take?_append (encode_length width value), Option.map_some,
    decode_encode hvalue]

theorem read_eq_some_iff :
    read width input = some (value, rest) ↔
      ∃ bytes, bytes.length = width ∧ decode bytes = value ∧ input = bytes ++ rest := by
  unfold read
  constructor
  · intro hread
    obtain ⟨⟨bytes, tail⟩, htake, heq⟩ := Option.map_eq_some_iff.mp hread
    obtain ⟨rfl, rfl⟩ := Prod.mk.inj heq
    obtain ⟨hsize, hinput⟩ := take?_eq_some_iff.mp htake
    exact ⟨bytes, hsize, rfl, hinput⟩
  · rintro ⟨bytes, hsize, rfl, rfl⟩
    rw [take?_append hsize, Option.map_some]

@[simp] theorem length_encodeAll :
    (encodeAll width values).length = width * values.length := by
  induction values with
  | nil => simp [encodeAll]
  | cons value values ih =>
      simp only [encodeAll, List.map_cons, List.flatten_cons, List.length_append,
        encode_length, List.length_cons] at ih ⊢
      rw [ih, Nat.mul_succ]
      omega

@[simp] theorem length_decodeAll : (decodeAll width count bytes).length = count := by
  induction count generalizing bytes with
  | zero => rfl
  | succ count ih => simp [decodeAll, ih]

theorem decodeAll_encodeAll (hvalues : ∀ value ∈ values, value < 256 ^ width) :
    decodeAll width values.length (encodeAll width values) = values := by
  induction values with
  | nil => rfl
  | cons value values ih =>
      obtain ⟨hvalue, hrest⟩ := List.forall_mem_cons.mp hvalues
      have hsplit : encodeAll width (value :: values) =
          encode width value ++ encodeAll width values := by
        simp [encodeAll]
      rw [List.length_cons, decodeAll, hsplit, List.take_left' (encode_length width value),
        List.drop_left' (encode_length width value), ih hrest, decode_encode hvalue]

end

end WordStream
