import Lavatube.PatchStream
import Lavatube.RandomAccess

/-!
# Strings in the stream

A string is stored as its length in 16 bits and its bytes.  The overload of
`write_string` for C strings and `write_string_array` cut the length once, and write as
many bytes as they have stored; the overload for `std::string` stores the cut length and
hands its whole length to `write_array`, which takes 32 bits of it.

* `readString_encoded` — a payload that is as long as it says is read back.
* `strings_in_sync_iff` — which strings leave the stream in sync, for both readers.
-/

namespace Lavatube
namespace Strings

open FileWriter PatchStream Transition

/-- A C string: the bytes in front of its terminating zero. -/
structure CString where
  bytes : List UInt8
  noNul : 0 ∉ bytes

/-- The argument of `write_string`: a pointer, which may be null, or a `std::string`. -/
inductive Text where
  | cString (text : Option CString)
  | stdString (text : List UInt8)

/-- `write_string(const char*)`. -/
def writeCString : Option CString → List Op
  | none => writeValue 2 0
  | some text =>
      let len := text.bytes.length % 2 ^ 16
      writeValue 2 len ++ writeArray (text.bytes.take len)

/-- `write_string(const std::string&)`; the length of `write_array` is an `unsigned`. -/
def writeStdString (text : List UInt8) : List Op :=
  writeValue 2 (text.length % 2 ^ 16) ++
    if text.length > 0 then writeArray (text.take (text.length % 2 ^ 32)) else []

/-- `write_string`. -/
def Text.write : Text → List Op
  | .cString text => writeCString text
  | .stdString text => writeStdString text

/-- `write_string_array`. -/
def writeStringArray (strs : List (Option CString)) : List Op := strs.flatMap writeCString

/-- `read_uint16_t` from a list of bytes. -/
def readUint16 (input : List UInt8) : Option (Nat × List UInt8) :=
  if 2 ≤ input.length then some (LittleEndian.decode (input.take 2), input.drop 2) else none

/-- `file_reader::read_string`: a null pointer, or the bytes in front of the zero that it
appends.  The memory pool that they are copied to has room for them: it holds 32 MiB and is
emptied behind each packet. -/
def readString (input : List UInt8) : Option (Option (List UInt8) × List UInt8) :=
  match readUint16 input with
  | none => none
  | some (len, input) =>
      if len > 0 then
        if len ≤ input.length then some (some (input.take len), input.drop len) else none
      else
        some (none, input)

/-- `file_reader::read_string_array`. -/
def readStringArray : Nat → List UInt8 → Option (List (Option (List UInt8)) × List UInt8)
  | 0, input => some ([], input)
  | len + 1, input =>
      match readString input with
      | none => none
      | some (str, input) =>
          (readStringArray len input).map fun result => (str :: result.1, result.2)

/-- `random_access_file_reader::read_string`. -/
def readStringAt (codecs : Container.Codecs) (reader : RandomAccess.Reader) :
    Option (RandomAccess.Reader × List UInt8) :=
  match RandomAccess.readBytes codecs reader 2 with
  | none => none
  | some (reader, bytes) =>
      let length := LittleEndian.decode bytes
      if length > 0 then RandomAccess.readBytes codecs reader length else some (reader, [])

/-! ## What is written -/

/-- The bytes of the string. -/
def Text.bytes : Text → List UInt8
  | .cString none => []
  | .cString (some text) => text.bytes
  | .stdString text => text

/-- The number of bytes that are written behind the stored length. -/
def Text.written : Text → Nat
  | .cString none => 0
  | .cString (some text) => text.bytes.length % 2 ^ 16
  | .stdString text => text.length % 2 ^ 32

/-- The stored length and the bytes behind it. -/
def Text.encoded (t : Text) : List UInt8 :=
  LittleEndian.encode 2 (t.bytes.length % 2 ^ 16) ++ t.bytes.take t.written

theorem Text.written_le (t : Text) : t.written ≤ t.bytes.length := by
  cases t with
  | cString text =>
      cases text with
      | none => exact le_rfl
      | some text => exact Nat.mod_le _ _
  | stdString text => exact Nat.mod_le _ _

theorem Text.written_lt (t : Text) : t.written < 2 ^ 32 := by
  cases t with
  | cString text =>
      cases text with
      | none => exact Nat.two_pow_pos 32
      | some text =>
          exact (Nat.mod_lt _ (Nat.two_pow_pos 16)).trans (by decide)
  | stdString text => exact Nat.mod_lt _ (Nat.two_pow_pos 32)

/-- A C string is written as long as it says. -/
theorem written_cString (text : Option CString) :
    (Text.cString text).written = (Text.cString text).bytes.length % 2 ^ 16 := by
  cases text <;> rfl

/-- What is written behind the length is one block, or nothing. -/
theorem exec_writeArray {s : Stream} (hwf : s.WF) {bytes : List UInt8}
    (hlength : bytes.length < 2 ^ 32) :
    ∃ next, exec step s (writeArray bytes) = some next ∧ next.WF ∧
      next.bytes = s.bytes ++ bytes := by
  unfold writeArray
  split
  · have hpieces : ∀ piece ∈ [bytes], piece.length < 2 ^ 32 := by simpa using hlength
    obtain ⟨next, hexec, hnext, hbytes⟩ := exec_blocks hwf hpieces
    exact ⟨next, hexec, hnext, by simpa using hbytes⟩
  · case _ hempty =>
      have hnil : bytes = [] := List.length_eq_zero_iff.mp (by omega)
      exact ⟨s, rfl, hwf, by simp [hnil]⟩

/-- **`write_string`** appends the encoded string, in any writer. -/
theorem exec_write {s : Stream} (hwf : s.WF) (t : Text) :
    ∃ next, exec step s t.write = some next ∧ next.WF ∧ next.bytes = s.bytes ++ t.encoded := by
  have hwrite : t.write =
      [LittleEndian.encode 2 (t.bytes.length % 2 ^ 16)].map .block ++
        writeArray (t.bytes.take t.written) := by
    cases t with
    | cString text => cases text <;> rfl
    | stdString text =>
        simp only [Text.write, writeStdString, writeValue, Text.bytes, Text.written,
          List.map_cons, List.map_nil]
        split
        · rfl
        · case _ hempty =>
            have hnil : text = [] := List.length_eq_zero_iff.mp (by omega)
            simp [hnil, writeArray]
  have hword : ∀ piece ∈ [LittleEndian.encode 2 (t.bytes.length % 2 ^ 16)],
      piece.length < 2 ^ 32 := by
    simp
  obtain ⟨middle, hfirst, hmiddle, hlength⟩ := exec_blocks hwf hword
  obtain ⟨next, hsecond, hnext, hbytes⟩ := exec_writeArray hmiddle
    (show (t.bytes.take t.written).length < 2 ^ 32 by
      rw [List.length_take_of_le t.written_le]
      exact t.written_lt)
  refine ⟨next, hwrite ▸ exec_append_eq_some_iff.mpr ⟨middle, hfirst, hsecond⟩, hnext, ?_⟩
  rw [hbytes, hlength, Text.encoded]
  simp

/-! ## What is read back -/

/-- `read_uint16_t` on a stored word. -/
theorem readUint16_encode {value : Nat} (hvalue : value < 2 ^ 16) (rest : List UInt8) :
    readUint16 (LittleEndian.encode 2 value ++ rest) = some (value, rest) := by
  have hlength : (LittleEndian.encode 2 value).length = 2 := by simp
  unfold readUint16
  rw [if_pos (by simp), List.take_left' hlength, List.drop_left' hlength,
    LittleEndian.decode_encode (by simpa using hvalue)]

/-- **Reading a string** takes as many bytes as the stored length says. -/
theorem readString_encoded (t : Text) (rest : List UInt8)
    (hroom : t.bytes.length % 2 ^ 16 ≤ t.written) :
    readString (t.encoded ++ rest) =
      some (if t.bytes.length % 2 ^ 16 = 0 then none
          else some (t.bytes.take (t.bytes.length % 2 ^ 16)),
        (t.bytes.take t.written).drop (t.bytes.length % 2 ^ 16) ++ rest) := by
  have hlen : t.bytes.length % 2 ^ 16 < 2 ^ 16 := Nat.mod_lt _ (Nat.two_pow_pos 16)
  have hwritten : (t.bytes.take t.written).length = t.written :=
    List.length_take_of_le t.written_le
  unfold readString Text.encoded
  rw [List.append_assoc, readUint16_encode hlen]
  generalize t.bytes.length % 2 ^ 16 = len at *
  simp only
  by_cases hzero : len = 0
  · subst hzero
    simp
  · rw [if_pos (Nat.pos_of_ne_zero hzero), if_pos (by simp [hwritten]; omega), if_neg hzero,
      List.take_append_of_le_length (by omega), List.drop_append_of_le_length (by omega),
      List.take_take, Nat.min_eq_left hroom]

/-- The stored length is never more than what is written. -/
theorem Text.stored_le (t : Text) : t.bytes.length % 2 ^ 16 ≤ t.written := by
  cases t with
  | cString text => exact (written_cString text).ge
  | stdString text =>
      show text.length % 2 ^ 16 ≤ text.length % 2 ^ 32
      omega

/-- What `read_string` returns for a string: null for the empty one. -/
def Text.reading (t : Text) : Option (List UInt8) :=
  if t.bytes = [] then none else some t.bytes

/-- A string that is shorter than the length can count is read back whole. -/
theorem readString_short {t : Text} (hshort : t.bytes.length < 2 ^ 16) :
    (if t.bytes.length % 2 ^ 16 = 0 then none
      else some (t.bytes.take (t.bytes.length % 2 ^ 16))) = t.reading := by
  rw [Nat.mod_eq_of_lt hshort, List.take_length]
  simp [Text.reading]

/-- **The random access reader** returns the same bytes from its position on. -/
theorem readStringAt_encoded {codecs : Container.Codecs} {stored : List Container.Stored}
    {reader : RandomAccess.Reader} (hserves : reader.Serves codecs stored) (t : Text)
    {rest : List UInt8}
    (hstream : (Container.storedBytes stored).drop reader.position = t.encoded ++ rest) :
    ∃ next, readStringAt codecs reader =
        some (next, t.bytes.take (t.bytes.length % 2 ^ 16)) ∧
      next.Serves codecs stored ∧
      next.position = reader.position + 2 + t.bytes.length % 2 ^ 16 := by
  have hlen : t.bytes.length % 2 ^ 16 < 2 ^ 16 := Nat.mod_lt _ (Nat.two_pow_pos 16)
  have hstored := t.stored_le
  have hwritten : (t.bytes.take t.written).length = t.written :=
    List.length_take_of_le t.written_le
  have hroom := congrArg List.length hstream
  unfold Text.encoded at hstream hroom
  simp only [List.length_drop, List.length_append, LittleEndian.encode_length,
    hwritten] at hroom
  obtain ⟨middle, hword, hmiddle, hposition⟩ :=
    RandomAccess.readBytes_spec hserves
      (show reader.position + 2 ≤ (Container.storedBytes stored).length by omega)
  have hlength : LittleEndian.decode (((Container.storedBytes stored).drop
      reader.position).take 2) = t.bytes.length % 2 ^ 16 := by
    rw [hstream, List.append_assoc, List.take_left' (by simp),
      LittleEndian.decode_encode (by simpa using hlen)]
  have hpayload : (Container.storedBytes stored).drop (reader.position + 2) =
      t.bytes.take t.written ++ rest := by
    rw [← List.drop_drop, hstream, List.append_assoc, List.drop_left' (by simp)]
  unfold readStringAt
  simp only [hword, hlength]
  generalize t.bytes.length % 2 ^ 16 = len at *
  -- an empty string is not read for: only its length has been
  by_cases hzero : len = 0
  · subst hzero
    exact ⟨middle, by simp, hmiddle, hposition⟩
  · obtain ⟨next, hread, hnext, hfinal⟩ :=
      RandomAccess.readBytes_spec hmiddle
        (show middle.position + len ≤ (Container.storedBytes stored).length by omega)
    refine ⟨next, ?_, hnext, by omega⟩
    rw [if_pos (Nat.pos_of_ne_zero hzero), hread, hposition, hpayload,
      List.take_append_of_le_length (by omega), List.take_take, Nat.min_eq_left hstored]

/-! ## Strings in sync -/

/-- What the string functions are for: in any writer the string is appended as one and
the same bytes; both readers consume exactly these, whatever follows, and return the
string if it is short enough and has no zero in it. -/
def InSync (t : Text) : Prop :=
  ∃ bytes,
    (∀ s : Stream, s.WF → ∃ next, exec step s t.write = some next ∧ next.WF ∧
      next.bytes = s.bytes ++ bytes) ∧
    (∀ rest, ∃ dst, readString (bytes ++ rest) = some (dst, rest) ∧
      (t.bytes.length < 2 ^ 16 → 0 ∉ t.bytes → dst = t.reading)) ∧
    ∀ codecs stored (reader : RandomAccess.Reader) rest, reader.Serves codecs stored →
      (Container.storedBytes stored).drop reader.position = bytes ++ rest →
      ∃ next value, readStringAt codecs reader = some (next, value) ∧
        next.Serves codecs stored ∧ next.position = reader.position + bytes.length ∧
        (t.bytes.length < 2 ^ 16 → 0 ∉ t.bytes → value = t.bytes)

theorem inSync_of_written {t : Text} (hwritten : t.written = t.bytes.length % 2 ^ 16) :
    InSync t := by
  have hlength : t.encoded.length = 2 + t.bytes.length % 2 ^ 16 := by
    rw [Text.encoded, List.length_append, LittleEndian.encode_length,
      List.length_take_of_le t.written_le, hwritten]
  refine ⟨t.encoded, fun s hwf => exec_write hwf t, fun rest => ?_,
    fun codecs stored reader rest hserves hstream => ?_⟩
  · refine ⟨_, ?_, fun hshort _ => readString_short hshort⟩
    rw [readString_encoded t rest hwritten.ge, hwritten, List.drop_of_length_le, List.nil_append]
    exact List.length_take_le _ _
  · obtain ⟨next, hread, hnext, hposition⟩ := readStringAt_encoded hserves t hstream
    refine ⟨next, _, hread, hnext, by omega, fun hshort _ => ?_⟩
    rw [Nat.mod_eq_of_lt hshort, List.take_length]

/-- A string that is written longer than it says is not in sync. -/
theorem not_inSync_of_written {t : Text} (hwritten : t.bytes.length % 2 ^ 16 < t.written) :
    ¬ InSync t := by
  rintro ⟨bytes, hwrite, hread, -⟩
  have hwf : Stream.WF ⟨[], Writer.new 1⟩ := Writer.wf_new 1
  obtain ⟨next, hexec, -, hbytes⟩ := hwrite _ hwf
  obtain ⟨next', hexec', -, hbytes'⟩ := exec_write hwf t
  rw [hexec', Option.some.injEq] at hexec
  subst hexec
  rw [hbytes', List.append_cancel_left_eq] at hbytes
  subst hbytes
  obtain ⟨dst, hdst, -⟩ := hread []
  rw [readString_encoded t [] hwritten.le, Option.some.injEq, Prod.mk.injEq] at hdst
  have hleft := congrArg List.length hdst.2
  simp only [List.append_nil, List.length_drop, List.length_take_of_le t.written_le,
    List.length_nil] at hleft
  omega

theorem not_inSync_stdString {text : List UInt8}
    (hlong : text.length % 2 ^ 16 < text.length % 2 ^ 32) : ¬ InSync (.stdString text) :=
  not_inSync_of_written hlong

/-- What `write_string_array` is for. -/
def ArrayInSync (strs : List (Option CString)) : Prop :=
  ∃ bytes,
    (∀ s : Stream, s.WF → ∃ next, exec step s (writeStringArray strs) = some next ∧ next.WF ∧
      next.bytes = s.bytes ++ bytes) ∧
    ∀ rest, ∃ results, readStringArray strs.length (bytes ++ rest) = some (results, rest) ∧
      results.length = strs.length ∧
      ∀ (i : Nat) str result, strs[i]? = some str → results[i]? = some result →
        (Text.cString str).bytes.length < 2 ^ 16 → result = (Text.cString str).reading

theorem arrayInSync (strs : List (Option CString)) : ArrayInSync strs := by
  induction strs with
  | nil =>
      exact ⟨[], fun s hwf => ⟨s, rfl, hwf, by simp⟩, fun rest => ⟨[], rfl, rfl, by simp⟩⟩
  | cons first strs ih =>
      obtain ⟨bytes, hwrite, hread⟩ := ih
      obtain ⟨front, hwriteFirst, hreadFirst, -⟩ :=
        inSync_of_written (written_cString first)
      refine ⟨front ++ bytes, fun s hwf => ?_, fun rest => ?_⟩
      · obtain ⟨middle, hfirst, hmiddle, hfront⟩ := hwriteFirst s hwf
        obtain ⟨next, hrest, hnext, hbytes⟩ := hwrite middle hmiddle
        refine ⟨next, ?_, hnext, by rw [hbytes, hfront, List.append_assoc]⟩
        exact exec_append_eq_some_iff.mpr ⟨middle, hfirst, hrest⟩
      · obtain ⟨dst, hdst, hshort⟩ := hreadFirst (bytes ++ rest)
        obtain ⟨results, hresults, hlength, hall⟩ := hread rest
        refine ⟨dst :: results, ?_, by simp [hlength], fun i str result hstr hresult => ?_⟩
        · simp only [List.length_cons, readStringArray, List.append_assoc, hdst, hresults,
            Option.map_some]
        -- the first string, or one of the rest
        · cases i with
          | zero =>
              cases hstr
              cases hresult
              intro hlen
              refine hshort hlen ?_
              cases first with
              | none => simp [Text.bytes]
              | some text => exact text.noNul
          | succ i => exact hall i str result hstr hresult

/-- **Strings in sync.**  C strings and arrays of them always are; a `std::string` is
exactly if the low 32 bits of its length fit the stored 16 bits, as those of every
string that is shorter than 65536 bytes do. -/
theorem strings_in_sync_iff (t : Text) (strs : List (Option CString)) :
    (InSync t ↔ ∀ text, t = .stdString text → text.length % 2 ^ 32 < 2 ^ 16) ∧
      ArrayInSync strs := by
  refine ⟨⟨?_, fun hfits => inSync_of_written ?_⟩, arrayInSync strs⟩
  · rintro hsync text rfl
    by_contra hlong
    have hwidths : text.length % 2 ^ 16 < text.length % 2 ^ 32 := by omega
    exact not_inSync_stdString hwidths hsync
  · cases t with
    | cString text => exact written_cString text
    | stdString text =>
        have hlow := hfits text rfl
        show text.length % 2 ^ 32 = text.length % 2 ^ 16
        omega

/-- The first length that the stored word cannot count. -/
theorem long_string_not_in_sync : ¬ InSync (.stdString (List.replicate 65536 65)) := by
  apply not_inSync_stdString
  rw [List.length_replicate]
  omega

end Strings
end Lavatube
