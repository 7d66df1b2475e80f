import Lavatube.Lib.ForwardCursor
import Lavatube.Lib.Tokens
import Mathlib.Data.List.Forall2
import Mathlib.Data.Nat.Digits.Defs

/-!
# The list of screenshot frames

The option `--screenshots` takes a list of frames and ranges of frames.  It is cut at the commas by
a function that drops empty pieces, each token is cut at its dash, and the numbers are read by
`strtoull`.  While the trace is replayed, a cursor goes through the ranges.

* `parseReplayScreenshotRanges` — the parser.
* `WellFormed` — what a list of frames is.
* `Tolerated`, `parse_eq_iff` — what the parser takes for one.
* `isFrameSelected`, `selections_eq` — the frames that are selected.
* `means_what_it_says_iff` — when the parser takes a list for what it is.
-/

namespace Lavatube
namespace ReplayScreenshot

open Tokens

/-! ### Characters and numbers -/

/-- The bytes of a `std::string`. -/
abbrev Text := List UInt8

def comma : UInt8 := 44

def dash : UInt8 := 45

def plus : UInt8 := 43

/-- `isspace` in the "C" locale: a blank, or one of tab, newline, vertical tab, form feed and
carriage return. -/
def isspace (c : UInt8) : Bool := c = 32 ∨ (9 ≤ c ∧ c ≤ 13)

def isdigit (c : UInt8) : Bool := 48 ≤ c ∧ c ≤ 57

/-- `trim_copy`. -/
def trimCopy (text : Text) : Text := trim isspace text

/-- The string that `c_str` points to, up to its terminating zero. -/
def cStr (text : Text) : Text := text.takeWhile (· ≠ 0)

/-- The value of decimal digits, read from the left. -/
def decimal (digits : Text) : Nat := digits.foldl (fun value c => 10 * value + (c.toNat - 48)) 0

/-- What `strtoull` returns, stores to `endptr` and leaves in `errno`. -/
structure Conversion where
  value : Nat
  /-- The string that `endptr` points to. -/
  rest : Text
  /-- `endptr` is not the start of the string. -/
  converted : Bool
  /-- `errno` is `ERANGE`. -/
  overflow : Bool
deriving DecidableEq, Repr

/-- The optional sign in front of the digits: whether it is a minus, and what follows. -/
def optionalSign : Text → Bool × Text
  | [] => (false, [])
  | c :: text => if c = dash then (true, text) else (false, if c = plus then text else c :: text)

/-- `strtoull` to the base of ten, on a C string. -/
def strtoull (nptr : Text) : Conversion :=
  let signed := optionalSign (nptr.dropWhile isspace)
  let digits := signed.2.takeWhile isdigit
  let rest := signed.2.dropWhile isdigit
  if digits = [] then ⟨0, nptr, false, false⟩
  else if decimal digits < 2 ^ 64 then
    ⟨if signed.1 then (2 ^ 64 - decimal digits) % 2 ^ 64 else decimal digits, rest, true, false⟩
  else
    ⟨2 ^ 64 - 1, rest, true, true⟩

/-! ### The parser -/

/-- What can be wrong with a list. -/
inductive ParseError where
  | emptyFrameValue
  | invalidFrameValue (trimmed : Text)
  | frameValueOutOfRange (trimmed : Text)
  | emptyList
  | emptyToken
  | invalidRange (token : Text)
  | descendingRange (token : Text)
  | notAscending
deriving DecidableEq, Repr

/-- A string in quotes, its bytes as characters. -/
def quoted (text : Text) : String :=
  "\"" ++ String.ofList (text.map fun c => Char.ofNat c.toNat) ++ "\""

/-- The message. -/
def ParseError.message : ParseError → String
  | .emptyFrameValue => "empty frame value"
  | .invalidFrameValue trimmed => "invalid frame value " ++ quoted trimmed
  | .frameValueOutOfRange trimmed => "frame value out of range " ++ quoted trimmed
  | .emptyList => "screenshot frame list cannot be empty"
  | .emptyToken => "empty screenshot frame token"
  | .invalidRange token => "invalid screenshot frame range " ++ quoted token
  | .descendingRange token => "descending screenshot frame range " ++ quoted token
  | .notAscending => "screenshot frame ranges must be strictly ascending and non-overlapping"

/-- `replay_screenshot_range`. -/
structure ReplayScreenshotRange where
  first : Nat
  last : Nat
deriving DecidableEq, Repr

/-- The loop of `split`, with the characters of the current piece. -/
def splitLoop (delimiter : UInt8) : Text → Text → List Text
  | [], buffer => if buffer ≠ [] then [buffer] else []
  | alpha :: str, buffer =>
      if alpha ≠ delimiter then splitLoop delimiter str (buffer ++ [alpha])
      else if buffer ≠ [] then buffer :: splitLoop delimiter str []
      else splitLoop delimiter str buffer

/-- `split`. -/
def split (str : Text) (delimiter : UInt8) : List Text := splitLoop delimiter str []

/-- `parse_frame_value`. -/
def parseFrameValue (text : Text) : Except ParseError Nat :=
  let trimmed := trimCopy text
  if trimmed = [] then .error .emptyFrameValue
  else
    let result := strtoull (cStr trimmed)
    if result.overflow ∨ ¬ result.converted ∨ result.rest ≠ [] then
      .error (.invalidFrameValue trimmed)
    else if result.value > 2 ^ 32 - 1 then .error (.frameValueOutOfRange trimmed)
    else .ok result.value

/-- The part of the loop of `parse_replay_screenshot_ranges` that reads one trimmed token. -/
def parseToken (token : Text) : Except ParseError ReplayScreenshotRange :=
  if dash ∉ token then
    match parseFrameValue token with
    | .error error => .error error
    | .ok first => .ok ⟨first, first⟩
  else
    let position := token.idxOf dash
    if dash ∈ token.drop (position + 1) then .error (.invalidRange token)
    else
      match parseFrameValue (token.take position) with
      | .error error => .error error
      | .ok first =>
          match parseFrameValue (token.drop (position + 1)) with
          | .error error => .error error
          | .ok last =>
              if last < first then .error (.descendingRange token) else .ok ⟨first, last⟩

/-- What the parser leaves in `out` and `error`; it returns true if there is no error. -/
structure Parsed where
  out : List ReplayScreenshotRange
  error : Option ParseError
deriving DecidableEq, Repr

/-- The string in `error`, which is cleared first. -/
def Parsed.message (parsed : Parsed) : String :=
  match parsed.error with
  | none => ""
  | some error => error.message

theorem append_quoted_ne_empty (label : String) (text : Text) : label ++ quoted text ≠ "" := by
  unfold quoted
  rw [ne_eq, String.append_eq_empty_iff, String.append_eq_empty_iff]
  exact fun h => absurd h.2.2 (by decide)

theorem ParseError.message_ne_empty (error : ParseError) : error.message ≠ "" := by
  cases error with
  | invalidFrameValue trimmed => exact append_quoted_ne_empty _ trimmed
  | frameValueOutOfRange trimmed => exact append_quoted_ne_empty _ trimmed
  | invalidRange token => exact append_quoted_ne_empty _ token
  | descendingRange token => exact append_quoted_ne_empty _ token
  | _ => decide

/-- There is a message exactly if the parser fails. -/
theorem Parsed.message_eq_empty_iff (parsed : Parsed) :
    parsed.message = "" ↔ parsed.error = none := by
  unfold Parsed.message
  cases parsed.error with
  | none => simp
  | some error => simp [error.message_ne_empty]

/-- The loop of `parse_replay_screenshot_ranges`; `previousLast` is there from the second round
on. -/
def parseLoop : List Text → Option Nat → List ReplayScreenshotRange → Parsed
  | [], _, out => ⟨out, none⟩
  | tokenRaw :: tokens, previousLast, out =>
      let token := trimCopy tokenRaw
      if token = [] then ⟨out, some .emptyToken⟩
      else
        match parseToken token with
        | .error error => ⟨out, some error⟩
        | .ok range =>
            if previousLast.any fun last => range.first ≤ last then ⟨out, some .notAscending⟩
            else parseLoop tokens (some range.last) (out ++ [range])

/-- `parse_replay_screenshot_ranges`. -/
def parseReplayScreenshotRanges (spec : Text) : Parsed :=
  if trimCopy spec = [] then ⟨[], some .emptyList⟩
  else parseLoop (split spec comma) none []

/-! ### The selector -/

/-- `replay_screenshot_handler`, as far as it selects frames. -/
structure ReplayScreenshotHandler where
  mRanges : List ReplayScreenshotRange
  mCurrentRange : Nat
deriving DecidableEq, Repr

/-- `set_ranges`. -/
def setRanges (ranges : List ReplayScreenshotRange) : ReplayScreenshotHandler := ⟨ranges, 0⟩

/-- The loop of `is_frame_selected`. -/
def skipRanges (handler : ReplayScreenshotHandler) (frame : Nat) : Nat :=
  ForwardCursor.advance (fun range => range.last < frame)
    (handler.mRanges.drop handler.mCurrentRange) handler.mCurrentRange

/-- `is_frame_selected`. -/
def isFrameSelected (handler : ReplayScreenshotHandler) (frame : Nat) :
    Bool × ReplayScreenshotHandler :=
  let current := skipRanges handler frame
  (match handler.mRanges[current]? with
    | none => false
    | some range => range.first ≤ frame ∧ frame ≤ range.last,
    { handler with mCurrentRange := current })

/-- One call after the other. -/
def selections : ReplayScreenshotHandler → List Nat → List Bool
  | _, [] => []
  | handler, frame :: frames =>
      (isFrameSelected handler frame).1 :: selections (isFrameSelected handler frame).2 frames

/-! ### What a list of frames is -/

/-- White space only. -/
def Spaces (text : Text) : Prop := ∀ c ∈ text, isspace c

/-- Digits, and nothing else, of a number below `2 ^ 32`. -/
structure Unsigned (digits : Text) (value : Nat) : Prop where
  nonempty : digits ≠ []
  all_digits : ∀ c ∈ digits, isdigit c
  value_eq : value = Nat.ofDigits 10 (digits.reverse.map fun c => c.toNat - 48)
  value_lt : value < 2 ^ 32

/-- A number, with white space around it. -/
def Number (text : Text) (value : Nat) : Prop :=
  ∃ front digits back, text = front ++ digits ++ back ∧ Spaces front ∧ Unsigned digits value ∧
    Spaces back

/-- A token is a number or a range of two numbers with a dash between them. -/
inductive Denotes (IsNumber : Text → Nat → Prop) : Text → ReplayScreenshotRange → Prop where
  | single {token : Text} {n : Nat} (hn : IsNumber token n) : Denotes IsNumber token ⟨n, n⟩
  | range {first last : Text} {a b : Nat} (ha : IsNumber first a) (hb : IsNumber last b)
      (hle : a ≤ b) : Denotes IsNumber (first ++ dash :: last) ⟨a, b⟩

/-- Each range starts behind the end of the one in front of it. -/
def Ascending (ranges : List ReplayScreenshotRange) : Prop :=
  ranges.IsChain fun previous next => previous.last < next.first

/-- The text is a list of frames, and these are its tokens in order. -/
def WellFormed (spec : Text) (ranges : List ReplayScreenshotRange) : Prop :=
  List.Forall₂ (Denotes Number) (spec.splitOn comma) ranges ∧ Ascending ranges

/-! ### What the parser takes for one -/

/-- A number that may have a plus in front of its digits, and anything but a dash behind a zero
byte. -/
def LooseNumber (text : Text) (value : Nat) : Prop :=
  ∃ front sign digits back, text = front ++ (sign ++ digits) ++ back ∧ Spaces front ∧
    (sign = [] ∨ sign = [plus]) ∧ Unsigned digits value ∧
    (Spaces back ∨ ∃ junk, back = 0 :: junk ∧ dash ∉ junk)

/-- A list of such numbers, which may have empty tokens too. -/
def Tolerated (spec : Text) (ranges : List ReplayScreenshotRange) : Prop :=
  spec ≠ [] ∧
    List.Forall₂ (Denotes LooseNumber) ((spec.splitOn comma).filter (· ≠ [])) ranges ∧
    Ascending ranges

/-- There is no plus, no zero byte and no empty token. -/
def Plain (spec : Text) : Prop := plus ∉ spec ∧ 0 ∉ spec ∧ [] ∉ spec.splitOn comma

/-! ### Numbers -/

section Numbers

variable {c : UInt8} {text sign digits : Text} {value : Nat}

theorem isdigit_iff : isdigit c ↔ 48 ≤ c.toNat ∧ c.toNat ≤ 57 := by
  simp [isdigit, UInt8.le_iff_toNat_le]

theorem isspace_iff : isspace c ↔ c.toNat = 32 ∨ 9 ≤ c.toNat ∧ c.toNat ≤ 13 := by
  simp [isspace, UInt8.le_iff_toNat_le, ← UInt8.toNat_inj]

theorem isspace_of_isdigit (hc : isdigit c) : isspace c = false := by
  rw [← Bool.not_eq_true, isspace_iff]
  rw [isdigit_iff] at hc
  omega

theorem ne_of_isdigit (hc : isdigit c) : c ≠ comma ∧ c ≠ dash ∧ c ≠ plus ∧ c ≠ 0 := by
  rw [isdigit_iff] at hc
  simp only [comma, dash, plus, ne_eq, ← UInt8.toNat_inj]
  exact ⟨by simp; omega, by simp; omega, by simp; omega, by simp; omega⟩

theorem ne_of_isspace (hc : isspace c) : c ≠ comma ∧ c ≠ dash ∧ c ≠ plus ∧ c ≠ 0 := by
  rw [isspace_iff] at hc
  simp only [comma, dash, plus, ne_eq, ← UInt8.toNat_inj]
  exact ⟨by simp; omega, by simp; omega, by simp; omega, by simp; omega⟩

theorem decimal_eq (digits : Text) :
    decimal digits = Nat.ofDigits 10 (digits.reverse.map fun c => c.toNat - 48) := by
  induction digits using List.reverseRecOn with
  | nil => rfl
  | append_singleton digits c ih =>
      rw [List.reverse_append, List.reverse_singleton, List.singleton_append, List.map_cons,
        Nat.ofDigits_cons, ← ih]
      unfold decimal
      rw [List.foldl_append, List.foldl_cons, List.foldl_nil, Nat.add_comm]

theorem optionalSign_cons : optionalSign (c :: text) =
    if c = dash then (true, text) else (false, if c = plus then text else c :: text) := rfl

/-- Without a dash, the sign is a plus or there is none. -/
theorem optionalSign_spec (hdash : dash ∉ text) :
    (optionalSign text).1 = false ∧
      ∃ sign, text = sign ++ (optionalSign text).2 ∧ (sign = [] ∨ sign = [plus]) := by
  cases text with
  | nil => exact ⟨rfl, [], rfl, Or.inl rfl⟩
  | cons c text =>
      have hc : c ≠ dash := fun h => hdash (h ▸ List.mem_cons_self)
      rw [optionalSign_cons, if_neg hc]
      constructor
      · rfl
      · by_cases hplus : c = plus
        · rw [if_pos hplus, hplus]
          exact ⟨[plus], rfl, Or.inr rfl⟩
        · rw [if_neg hplus]
          exact ⟨[], rfl, Or.inl rfl⟩

/-- Neither the sign nor a digit is a space or a zero byte. -/
theorem signed_chars (hsign : sign = [] ∨ sign = [plus]) (hdigits : ∀ c ∈ digits, isdigit c) :
    ∀ c ∈ sign ++ digits, isspace c = false ∧ c ≠ 0 ∧ c ≠ dash := by
  intro c hc
  rcases List.mem_append.mp hc with hc | hc
  · rcases hsign with rfl | rfl
    · exact absurd hc List.not_mem_nil
    · rw [List.mem_singleton.mp hc]
      decide
  · have hne := ne_of_isdigit (hdigits c hc)
    exact ⟨isspace_of_isdigit (hdigits c hc), hne.2.2.2, hne.2.1⟩

/-- `strtoull` reads a number to its end. -/
theorem strtoull_signed (hsign : sign = [] ∨ sign = [plus]) (hnumber : Unsigned digits value) :
    strtoull (sign ++ digits) = ⟨value, [], true, false⟩ := by
  have hchars := signed_chars hsign hnumber.all_digits
  have hsigned : optionalSign (sign ++ digits) = (false, digits) := by
    obtain ⟨c, rest, rfl⟩ := List.exists_cons_of_ne_nil hnumber.nonempty
    have hc := ne_of_isdigit (hnumber.all_digits c List.mem_cons_self)
    rcases hsign with rfl | rfl
    · rw [List.nil_append, optionalSign_cons, if_neg hc.2.1, if_neg hc.2.2.1]
    · rfl
  have hlt : decimal digits < 2 ^ 64 := by
    rw [decimal_eq, ← hnumber.value_eq]
    exact hnumber.value_lt.trans (by decide)
  unfold strtoull
  rw [dropWhile_eq_self fun c hc => (hchars c hc).1, hsigned]
  simp only
  rw [List.takeWhile_eq_self_iff.mpr hnumber.all_digits, List.dropWhile_eq_nil_iff.mpr hnumber.all_digits,
    if_neg hnumber.nonempty, if_pos hlt, decimal_eq, ← hnumber.value_eq]
  rfl

/-- What `strtoull` reads to its end without an overflow. -/
theorem exists_of_strtoull (hdash : dash ∉ text) (hconverted : (strtoull text).converted = true)
    (hoverflow : (strtoull text).overflow = false) (hrest : (strtoull text).rest = [])
    (hvalue : (strtoull text).value < 2 ^ 32) :
    ∃ front sign digits, text = front ++ (sign ++ digits) ∧ Spaces front ∧
      (sign = [] ∨ sign = [plus]) ∧ Unsigned digits (strtoull text).value := by
  have hsplit := List.takeWhile_append_dropWhile (p := isspace) (l := text)
  have hdash' : dash ∉ text.dropWhile isspace := fun h =>
    hdash ((List.dropWhile_sublist _).subset h)
  obtain ⟨hminus, sign, hsigned, hsign⟩ := optionalSign_spec hdash'
  unfold strtoull at hconverted hoverflow hrest hvalue ⊢
  simp only at hconverted hoverflow hrest hvalue ⊢
  by_cases hnone : (optionalSign (text.dropWhile isspace)).2.takeWhile isdigit = []
  · rw [if_pos hnone] at hconverted
    exact absurd hconverted Bool.false_ne_true
  · rw [if_neg hnone] at hoverflow hrest hvalue ⊢
    by_cases hlt : decimal ((optionalSign (text.dropWhile isspace)).2.takeWhile isdigit) < 2 ^ 64
    · rw [if_pos hlt] at hrest hvalue ⊢
      simp only [hminus, Bool.false_eq_true, if_false] at hrest hvalue ⊢
      have hall := List.dropWhile_eq_nil_iff.mp hrest
      rw [List.takeWhile_eq_self_iff.mpr hall] at hnone hvalue ⊢
      use text.takeWhile isspace, sign, (optionalSign (text.dropWhile isspace)).2
      rw [← hsigned, hsplit]
      exact ⟨rfl, fun c hc => List.mem_takeWhile_imp hc, hsign, hnone, hall, decimal_eq _, hvalue⟩
    · rw [if_neg hlt] at hoverflow
      exact absurd hoverflow.symm Bool.false_ne_true

/-- What `strtoull` gets of a number. -/
theorem cStr_trimCopy {front back : Text} (hfront : Spaces front)
    (hsign : sign = [] ∨ sign = [plus]) (hdigits : ∀ c ∈ digits, isdigit c)
    (hback : Spaces back ∨ ∃ junk, back = 0 :: junk ∧ dash ∉ junk) :
    cStr (trimCopy (front ++ (sign ++ digits) ++ back)) = sign ++ digits := by
  have hchars := signed_chars hsign hdigits
  have hspace : ∀ c ∈ sign ++ digits, isspace c = false := fun c hc => (hchars c hc).1
  have hzero : ∀ c ∈ sign ++ digits, decide (c ≠ 0) = true := fun c hc =>
    decide_eq_true (hchars c hc).2.1
  unfold trimCopy cStr
  rw [List.append_assoc, trim_append_left hfront]
  rcases hback with hback | ⟨junk, rfl, -⟩
  · rw [trim_append_right _ hback, trim_eq_self hspace, List.takeWhile_eq_self_iff.mpr hzero]
  · rw [trim_append_cons hspace (by decide), List.takeWhile_append_of_pos hzero,
      List.takeWhile_cons_of_neg (by decide), List.append_nil]

/-- Behind the C string there is nothing, or a zero byte. -/
theorem cStr_append (text : Text) :
    ∃ tail, text = cStr text ++ tail ∧ (tail = [] ∨ ∃ junk, tail = 0 :: junk) := by
  use text.dropWhile fun c => decide (c ≠ 0)
  constructor
  · exact List.takeWhile_append_dropWhile.symm
  · cases hdrop : text.dropWhile fun c => decide (c ≠ 0) with
    | nil => exact Or.inl rfl
    | cons c junk =>
        have hc := List.head?_dropWhile_not (fun c : UInt8 => decide (c ≠ 0)) text
        rw [hdrop] at hc
        have hzero : c = 0 := by simpa using hc
        exact Or.inr ⟨junk, by rw [hzero]⟩

/-- **The numbers** that `parse_frame_value` reads, in a text without a dash. -/
theorem parseFrameValue_eq_ok_iff (hdash : dash ∉ text) :
    parseFrameValue text = .ok value ↔ LooseNumber text value := by
  constructor
  · intro hparse
    unfold parseFrameValue at hparse
    simp only at hparse
    split_ifs at hparse with hempty herror hlarge
    cases hparse
    push Not at herror
    obtain ⟨hoverflow, hconverted, hrest⟩ := herror
    obtain ⟨front, back, htext, hfront, hback⟩ := exists_padding isspace text
    obtain ⟨tail, htrimmed, htail⟩ := cStr_append (trimCopy text)
    rw [show trim isspace text = trimCopy text from rfl, htrimmed] at htext
    have hdash' : dash ∉ cStr (trimCopy text) := fun h => hdash (by rw [htext]; simp [h])
    obtain ⟨space, sign, digits, hcStr, hspace, hsign, hnumber⟩ := exists_of_strtoull hdash'
      (by simpa using hconverted) (by simpa using hoverflow) hrest (by omega)
    use front ++ space, sign, digits, tail ++ back
    constructor
    · conv_lhs => rw [htext, hcStr]
      simp only [List.append_assoc]
    -- what is behind the number is space, or a null character hides it
    · have hbehind : Spaces (tail ++ back) ∨ ∃ junk, tail ++ back = 0 :: junk ∧ dash ∉ junk := by
        rcases htail with rfl | ⟨junk, rfl⟩
        · exact Or.inl hback
        · right
          use junk ++ back, rfl
          intro h
          apply hdash
          rw [htext, List.append_assoc, List.append_assoc, List.cons_append]
          exact List.mem_append_right _ (List.mem_append_right _ (List.mem_cons_of_mem _ h))
      exact ⟨List.forall_mem_append.mpr ⟨hfront, hspace⟩, hsign, hnumber, hbehind⟩
  · rintro ⟨front, sign, digits, back, rfl, hfront, hsign, hnumber, hback⟩
    have hcStr := cStr_trimCopy hfront hsign hnumber.all_digits hback
    have hne : trimCopy (front ++ (sign ++ digits) ++ back) ≠ [] := by
      intro hnil
      rw [hnil] at hcStr
      exact hnumber.nonempty (List.append_eq_nil_iff.mp hcStr.symm).2
    unfold parseFrameValue
    simp only
    rw [if_neg hne, hcStr, strtoull_signed hsign hnumber, if_neg (by simp), if_neg]
    have := hnumber.value_lt
    simp only
    omega

end Numbers

/-! ### Tokens -/

section Token

variable {text front back token first last : Text} {value : Nat} {range : ReplayScreenshotRange}

theorem not_mem_of_spaces (hspaces : Spaces text) : dash ∉ text := fun h =>
  (ne_of_isspace (hspaces dash h)).2.1 rfl

theorem LooseNumber.not_mem (h : LooseNumber text value) : dash ∉ text := by
  obtain ⟨front, sign, digits, back, rfl, hfront, hsign, hnumber, hback⟩ := h
  have hsigned : dash ∉ sign ++ digits := fun h =>
    (signed_chars hsign hnumber.all_digits dash h).2.2 rfl
  apply List.not_mem_append (List.not_mem_append (not_mem_of_spaces hfront) hsigned)
  rcases hback with hback | ⟨junk, rfl, hjunk⟩
  · exact not_mem_of_spaces hback
  · exact List.not_mem_cons_of_ne_of_not_mem (by decide) hjunk

/-- A number depends on the trimmed text only. -/
theorem looseNumber_congr {other : Text} (htrim : trimCopy text = trimCopy other)
    (hdash : dash ∉ text) (hother : dash ∉ other) :
    LooseNumber text value ↔ LooseNumber other value := by
  rw [← parseFrameValue_eq_ok_iff hdash, ← parseFrameValue_eq_ok_iff hother]
  unfold parseFrameValue
  rw [htrim]

theorem looseNumber_append_left (hfront : Spaces front) :
    LooseNumber (front ++ text) value ↔ LooseNumber text value := by
  by_cases hdash : dash ∈ text
  · exact iff_of_false (fun h => h.not_mem (List.mem_append_right _ hdash))
      fun h => h.not_mem hdash
  · apply looseNumber_congr (trim_append_left hfront text) _ hdash
    rw [List.mem_append, not_or]
    exact ⟨not_mem_of_spaces hfront, hdash⟩

theorem looseNumber_append_right (hback : Spaces back) :
    LooseNumber (text ++ back) value ↔ LooseNumber text value := by
  by_cases hdash : dash ∈ text
  · exact iff_of_false (fun h => h.not_mem (List.mem_append_left _ hdash))
      fun h => h.not_mem hdash
  · apply looseNumber_congr (trim_append_right text hback) _ hdash
    rw [List.mem_append, not_or]
    exact ⟨hdash, not_mem_of_spaces hback⟩

/-- A token without a dash. -/
theorem denotes_single_iff (hdash : dash ∉ token) :
    Denotes LooseNumber token range ↔
      LooseNumber token range.first ∧ range.last = range.first := by
  constructor
  · rintro (hn | ⟨-, -, -⟩)
    · exact ⟨hn, rfl⟩
    · exact absurd (List.mem_append_right _ List.mem_cons_self) hdash
  · obtain ⟨a, b⟩ := range
    rintro ⟨hn, hb⟩
    rw [show b = a from hb]
    exact .single hn

/-- A token with a dash is cut there. -/
theorem denotes_range_iff :
    Denotes LooseNumber (first ++ dash :: last) range ↔
      LooseNumber first range.first ∧ LooseNumber last range.last ∧
        range.first ≤ range.last := by
  constructor
  · generalize htoken : first ++ dash :: last = token
    rintro (hn | ⟨ha, hb, hle⟩)
    · rw [← htoken] at hn
      exact absurd (List.mem_append_right _ List.mem_cons_self) hn.not_mem
    · obtain ⟨hfirst, -, hlast⟩ :=
        (List.append_cons_inj_of_notMem ha.not_mem hb.not_mem).mp htoken.symm
      rw [← hfirst, ← hlast]
      exact ⟨ha, hb, hle⟩
  · rintro ⟨ha, hb, hle⟩
    exact .range ha hb hle

/-- **The tokens** that the parser reads. -/
theorem parseToken_eq_ok_iff : parseToken token = .ok range ↔ Denotes LooseNumber token range := by
  unfold parseToken
  by_cases hdash : dash ∈ token
  · obtain ⟨first, last, rfl, hfirst⟩ := List.eq_append_cons_of_mem hdash
    have hposition : (first ++ dash :: last).idxOf dash = first.length := by
      rw [List.idxOf_append_of_notMem hfirst, List.idxOf_cons_self, Nat.add_zero]
    have hdrop : (first ++ dash :: last).drop (first.length + 1) = last := by
      rw [List.append_cons, List.drop_left' (by simp)]
    rw [if_neg (not_not_intro hdash), denotes_range_iff]
    simp only [hposition, hdrop]
    rw [List.take_left' rfl]
    -- a second dash makes the last frame unreadable
    by_cases hlast : dash ∈ last
    · rw [if_pos hlast]
      exact iff_of_false (fun h => by cases h) fun h => h.2.1.not_mem hlast
    · rw [if_neg hlast, ← parseFrameValue_eq_ok_iff hfirst, ← parseFrameValue_eq_ok_iff hlast]
      cases parseFrameValue first with
      | error error => simp
      | ok a =>
          cases parseFrameValue last with
          | error error => simp
          | ok b =>
              obtain ⟨a', b'⟩ := range
              -- both frames are numbers: only their order is left
              by_cases hlt : b < a
              · simp only [if_pos hlt, reduceCtorEq, Except.ok.injEq, false_iff]
                rintro ⟨rfl, rfl, hle⟩
                omega
              · simp only [if_neg hlt, Except.ok.injEq, ReplayScreenshotRange.mk.injEq]
                constructor
                · rintro ⟨rfl, rfl⟩
                  exact ⟨rfl, rfl, by omega⟩
                · rintro ⟨rfl, rfl, -⟩
                  exact ⟨rfl, rfl⟩
  · rw [if_pos hdash, denotes_single_iff hdash, ← parseFrameValue_eq_ok_iff hdash]
    cases parseFrameValue token with
    | error error => simp
    | ok a =>
        obtain ⟨a', b'⟩ := range
        simp only [Except.ok.injEq, ReplayScreenshotRange.mk.injEq]
        constructor
        · rintro ⟨rfl, rfl⟩
          exact ⟨rfl, rfl⟩
        · rintro ⟨rfl, rfl⟩
          exact ⟨rfl, rfl⟩

/-- The padding of a token makes no difference. -/
theorem denotes_trimCopy :
    Denotes LooseNumber (trimCopy text) range ↔ Denotes LooseNumber text range := by
  obtain ⟨front, back, htext, hfront, hback⟩ := exists_padding isspace text
  change text = front ++ trimCopy text ++ back at htext
  generalize trimCopy text = token at htext ⊢
  subst htext
  by_cases hdash : dash ∈ token
  · obtain ⟨first, last, rfl, -⟩ := List.eq_append_cons_of_mem hdash
    have hsplit : front ++ (first ++ dash :: last) ++ back =
        (front ++ first) ++ dash :: (last ++ back) := by simp
    rw [hsplit, denotes_range_iff, denotes_range_iff, looseNumber_append_left hfront,
      looseNumber_append_right hback]
  · have hdash' : dash ∉ front ++ token ++ back := List.not_mem_append
      (List.not_mem_append (not_mem_of_spaces hfront) hdash) (not_mem_of_spaces hback)
    rw [denotes_single_iff hdash, denotes_single_iff hdash', looseNumber_append_right hback,
      looseNumber_append_left hfront]

theorem not_denotes_nil : ¬ Denotes LooseNumber [] range := by
  rw [← parseToken_eq_ok_iff]
  exact fun h => by cases h

end Token

/-! ### Lists -/

/-- The ranges ascend, and start behind the end of one in front of them. -/
def AscendingFrom (previousLast : Option Nat) (ranges : List ReplayScreenshotRange) : Prop :=
  (∀ last ∈ previousLast, ∀ range ∈ ranges.head?, last < range.first) ∧ Ascending ranges

section List

variable {previousLast : Option Nat} {range : ReplayScreenshotRange}
variable {ranges out : List ReplayScreenshotRange}

theorem ascendingFrom_cons : AscendingFrom previousLast (range :: ranges) ↔
    (∀ last ∈ previousLast, last < range.first) ∧ AscendingFrom (some range.last) ranges := by
  unfold AscendingFrom Ascending
  rw [List.isChain_cons]
  simp

theorem not_any_le_iff : ¬ (previousLast.any fun last => range.first ≤ last) = true ↔
    ∀ last ∈ previousLast, last < range.first := by
  cases previousLast <;> simp

/-- **The loop** reads all tokens, if it comes to its end. -/
theorem parseLoop_eq_iff (tokens : List Text) :
    parseLoop tokens previousLast out = ⟨ranges, none⟩ ↔
      ∃ new, ranges = out ++ new ∧ List.Forall₂ (Denotes LooseNumber) tokens new ∧
        AscendingFrom previousLast new := by
  induction tokens generalizing previousLast out with
  | nil =>
      simp only [parseLoop, Parsed.mk.injEq, and_true, List.forall₂_nil_left_iff]
      constructor
      · rintro rfl
        exact ⟨[], by simp, rfl, by simp, List.isChain_nil⟩
      · rintro ⟨new, rfl, rfl, -⟩
        rw [List.append_nil]
  | cons tokenRaw tokens ih =>
      unfold parseLoop
      simp only
      constructor
      · intro hloop
        split_ifs at hloop with hempty
        · cases hloop
        · cases hread : parseToken (trimCopy tokenRaw) with
          | error error =>
              rw [hread] at hloop
              cases hloop
          | ok range =>
              rw [hread] at hloop
              simp only at hloop
              split_ifs at hloop with hbehind
              · cases hloop
              · rw [not_any_le_iff] at hbehind
                obtain ⟨new, rfl, htokens, hascending⟩ := ih.mp hloop
                have htoken := denotes_trimCopy.mp (parseToken_eq_ok_iff.mp hread)
                exact ⟨range :: new, by simp, .cons htoken htokens,
                  ascendingFrom_cons.mpr ⟨hbehind, hascending⟩⟩
      · rintro ⟨_, rfl, htokens, hascending⟩
        rcases htokens with _ | @⟨_, range, _, new, htoken, htokens⟩
        rw [ascendingFrom_cons] at hascending
        have htrimmed := denotes_trimCopy.mpr htoken
        -- a token of spaces denotes nothing
        have hempty : trimCopy tokenRaw ≠ [] := fun hnil =>
          not_denotes_nil (hnil ▸ htrimmed)
        rw [if_neg hempty, parseToken_eq_ok_iff.mpr htrimmed]
        simp only
        rw [if_neg (not_any_le_iff.mpr hascending.1)]
        exact ih.mpr ⟨new, by simp, htokens, hascending.2⟩

/-- The loop of `split` drops the empty pieces. -/
theorem splitLoop_eq (delimiter : UInt8) (str buffer : Text) (hbuffer : delimiter ∉ buffer) :
    splitLoop delimiter str buffer = ((buffer ++ str).splitOn delimiter).filter (· ≠ []) := by
  induction str generalizing buffer with
  | nil =>
      rw [splitLoop, List.append_nil, List.splitOn_eq_singleton hbuffer]
      by_cases hempty : buffer = [] <;> simp [hempty]
  | cons alpha str ih =>
      rw [splitLoop]
      by_cases halpha : alpha = delimiter
      · rw [if_neg (not_not_intro halpha), halpha,
          List.splitOn_append_cons_self_of_not_mem hbuffer]
        have hrest := ih [] List.not_mem_nil
        rw [List.nil_append] at hrest
        by_cases hempty : buffer = []
        · simp [hempty, hrest]
        · simp [hempty, hrest]
      · rw [if_pos halpha, ih, List.append_assoc, List.singleton_append]
        exact List.not_mem_append hbuffer fun h => halpha (List.mem_singleton.mp h).symm

theorem split_eq (str : Text) (delimiter : UInt8) :
    split str delimiter = (str.splitOn delimiter).filter (· ≠ []) :=
  splitLoop_eq delimiter str [] List.not_mem_nil

/-- White space alone has no token. -/
theorem not_tolerated_of_spaces {spec : Text} (hspaces : Spaces spec) :
    ¬ Tolerated spec ranges := by
  rintro ⟨hne, htokens, -⟩
  have hcomma : comma ∉ spec := fun h => (ne_of_isspace (hspaces comma h)).1 rfl
  rw [List.splitOn_eq_singleton hcomma, List.filter_cons_of_pos (by simpa using hne)] at htokens
  rcases htokens with _ | ⟨htoken, -⟩
  rw [← denotes_trimCopy, show trimCopy spec = [] from trim_eq_nil_iff.mpr hspaces] at htoken
  exact not_denotes_nil htoken

/-- **What the parser takes for a list of frames.** -/
theorem parse_eq_iff (spec : Text) (ranges : List ReplayScreenshotRange) :
    parseReplayScreenshotRanges spec = ⟨ranges, none⟩ ↔ Tolerated spec ranges := by
  unfold parseReplayScreenshotRanges
  by_cases hempty : trimCopy spec = []
  · rw [if_pos hempty]
    exact iff_of_false (fun h => by cases h) (not_tolerated_of_spaces (trim_eq_nil_iff.mp hempty))
  · rw [if_neg hempty, parseLoop_eq_iff, split_eq]
    have hne : spec ≠ [] := by
      rintro rfl
      exact hempty rfl
    constructor
    · rintro ⟨new, rfl, htokens, -, hascending⟩
      exact ⟨hne, htokens, hascending⟩
    · rintro ⟨-, htokens, hascending⟩
      exact ⟨ranges, rfl, htokens, fun _ h => absurd h (Option.not_mem_none _), hascending⟩

/-- The text " 1 - 3 , 7 ". -/
example : parseReplayScreenshotRanges [32, 49, 32, 45, 32, 51, 32, 44, 32, 55, 32] =
    ⟨[⟨1, 3⟩, ⟨7, 7⟩], none⟩ := by decide

end List

/-! ### What the two have in common -/

section Compare

variable {P Q : Text → Nat → Prop} {spec text token : Text} {value : Nat}
variable {range : ReplayScreenshotRange} {ranges : List ReplayScreenshotRange}

theorem Denotes.imp (h : Denotes P token range)
    (himp : ∀ text n, (∀ c ∈ text, c ∈ token) → P text n → Q text n) : Denotes Q token range := by
  rcases h with hn | ⟨ha, hb, hle⟩
  · exact .single (himp _ _ (fun _ hc => hc) hn)
  · exact .range (himp _ _ (fun _ hc => List.mem_append_left _ hc) ha)
      (himp _ _ (fun _ hc => List.mem_append_right _ (List.mem_cons_of_mem _ hc)) hb) hle

theorem Denotes.first_le_last (h : Denotes P token range) : range.first ≤ range.last := by
  rcases h with - | ⟨-, -, hle⟩
  · exact le_rfl
  · exact hle

theorem Number.loose (h : Number text value) : LooseNumber text value := by
  obtain ⟨front, digits, back, rfl, hfront, hnumber, hback⟩ := h
  exact ⟨front, [], digits, back, rfl, hfront, Or.inl rfl, hnumber, Or.inl hback⟩

theorem LooseNumber.number (h : LooseNumber text value) (hplus : plus ∉ text) (hzero : 0 ∉ text) :
    Number text value := by
  obtain ⟨front, sign, digits, back, rfl, hfront, hsign, hnumber, hback⟩ := h
  have hsign : sign = [] := hsign.resolve_right fun h => hplus (by simp [h])
  have hback : Spaces back := hback.resolve_right fun ⟨_, h, _⟩ => hzero (by simp [h])
  exact ⟨front, digits, back, by rw [hsign, List.nil_append], hfront, hnumber, hback⟩

/-- The characters of a number. -/
theorem Number.chars (h : Number text value) : text ≠ [] ∧ plus ∉ text ∧ 0 ∉ text := by
  obtain ⟨front, digits, back, rfl, hfront, hnumber, hback⟩ := h
  have hchars : ∀ c ∈ front ++ digits ++ back, c ≠ plus ∧ c ≠ 0 := by
    intro c hc
    rcases List.mem_append.mp hc with hc | hc
    · rcases List.mem_append.mp hc with hc | hc
      · exact (ne_of_isspace (hfront c hc)).2.2
      · exact (ne_of_isdigit (hnumber.all_digits c hc)).2.2
    · exact (ne_of_isspace (hback c hc)).2.2
  exact ⟨by simp [hnumber.nonempty], fun h => (hchars _ h).1 rfl, fun h => (hchars _ h).2 rfl⟩

theorem Denotes.chars (h : Denotes Number token range) :
    token ≠ [] ∧ plus ∉ token ∧ 0 ∉ token := by
  rcases h with hn | ⟨ha, hb, -⟩
  · exact hn.chars
  · have hplus := List.not_mem_append ha.chars.2.1
      (List.not_mem_cons_of_ne_of_not_mem (show plus ≠ dash by decide) hb.chars.2.1)
    have hzero := List.not_mem_append ha.chars.2.2
      (List.not_mem_cons_of_ne_of_not_mem (show 0 ≠ dash by decide) hb.chars.2.2)
    exact ⟨by simp, hplus, hzero⟩

theorem WellFormed.plain (h : WellFormed spec ranges) : Plain spec := by
  have hchars : ∀ token ∈ spec.splitOn comma, token ≠ [] ∧ plus ∉ token ∧ 0 ∉ token :=
    ((List.forall₂_and_left _ _).mp (h.1.imp fun _ _ ht => ⟨ht.chars, ht⟩)).1
  have hmem : ∀ c, c ≠ comma → (∀ token ∈ spec.splitOn comma, c ∉ token) → c ∉ spec := by
    intro c hc hnone hin
    obtain ⟨token, htoken, hct⟩ := exists_piece hin hc
    exact hnone token htoken hct
  exact ⟨hmem plus (by decide) fun token ht => (hchars token ht).2.1,
    hmem 0 (by decide) fun token ht => (hchars token ht).2.2, fun h => (hchars [] h).1 rfl⟩

/-- Without empty tokens, `split` gives all tokens. -/
theorem Plain.filter_eq (h : Plain spec) :
    (spec.splitOn comma).filter (· ≠ []) = spec.splitOn comma := by
  rw [List.filter_eq_self]
  intro token htoken
  exact decide_eq_true fun hnil => h.2.2 (hnil ▸ htoken)

theorem WellFormed.tolerated (h : WellFormed spec ranges) : Tolerated spec ranges := by
  have hne : spec ≠ [] := by
    rintro rfl
    exact h.plain.2.2 List.mem_cons_self
  rw [Tolerated, h.plain.filter_eq]
  exact ⟨hne, h.1.imp fun _ _ ht => ht.imp fun _ _ _ hn => hn.loose, h.2⟩

theorem Tolerated.wellFormed (h : Tolerated spec ranges) (hplain : Plain spec) :
    WellFormed spec ranges := by
  obtain ⟨-, htokens, hascending⟩ := h
  rw [hplain.filter_eq] at htokens
  have hsub : ∀ token ∈ spec.splitOn comma, ∀ c ∈ token, c ∈ spec := fun _ htoken _ hc =>
    mem_of_mem_piece htoken hc
  have hpairs := (List.forall₂_and_left _ _).mpr ⟨hsub, htokens⟩
  constructor
  · apply hpairs.imp
    rintro token range ⟨hchars, htoken⟩
    exact htoken.imp fun text n htext hn =>
      hn.number (fun h => hplain.1 (hchars _ (htext _ h))) fun h => hplain.2.1 (hchars _ (htext _ h))
  · exact hascending

end Compare

/-! ### The frames that are selected -/

/-- The frame lies in one of the ranges. -/
def Selected (ranges : List ReplayScreenshotRange) (frame : Nat) : Prop :=
  ∃ range ∈ ranges, range.first ≤ frame ∧ frame ≤ range.last

instance (ranges : List ReplayScreenshotRange) (frame : Nat) : Decidable (Selected ranges frame) :=
  inferInstanceAs (Decidable (∃ range ∈ ranges, _))

/-- No range reaches into a later one. -/
def Apart (ranges : List ReplayScreenshotRange) : Prop :=
  ranges.Pairwise fun previous next => previous.last < next.first

theorem Ascending.apart {ranges : List ReplayScreenshotRange} (h : Ascending ranges)
    (hvalid : ∀ range ∈ ranges, range.first ≤ range.last) : Apart ranges := by
  induction ranges with
  | nil => exact List.Pairwise.nil
  | cons range ranges ih =>
      rw [Ascending, List.isChain_cons] at h
      have hrest := ih h.2 fun r hr => hvalid r (List.mem_cons_of_mem _ hr)
      apply List.pairwise_cons.mpr ⟨_, hrest⟩
      intro next hnext
      cases ranges with
      | nil => exact absurd hnext List.not_mem_nil
      | cons head ranges =>
          have hhead : range.last < head.first := h.1 head rfl
          rcases List.mem_cons.mp hnext with rfl | hnext
          · exact hhead
          · have hvalid' := hvalid head (by simp)
            have hnext' := (List.pairwise_cons.mp hrest).1 next hnext
            omega

section Selector

variable {handler : ReplayScreenshotHandler} {frame : Nat} {frames : List Nat}

/-- The ranges in front of the cursor end before the frame. -/
def Passed (handler : ReplayScreenshotHandler) (frame : Nat) : Prop :=
  ForwardCursor.Behind (fun range => decide (range.last < frame)) handler.mRanges
    handler.mCurrentRange

theorem Passed.mono (h : Passed handler frame) {later : Nat} (hle : frame ≤ later) :
    Passed handler later :=
  ForwardCursor.Behind.mono h fun _ hrange =>
    decide_eq_true ((of_decide_eq_true hrange).trans_le hle)

theorem Passed.isFrameSelected (h : Passed handler frame) :
    Passed (isFrameSelected handler frame).2 frame :=
  ForwardCursor.Behind.advance h

/-- **One call.**  The answer is right if the ranges that have been passed end before the frame. -/
theorem isFrameSelected_eq (hapart : Apart handler.mRanges) (hpassed : Passed handler frame) :
    (isFrameSelected handler frame).1 = decide (Selected handler.mRanges frame) := by
  unfold isFrameSelected skipRanges
  simp only
  rw [hpassed.getElem?_advance, Bool.eq_iff_iff, decide_eq_true_eq]
  cases hfind : handler.mRanges.find? fun range => ! decide (range.last < frame) with
  | none =>
      rw [List.find?_eq_none] at hfind
      apply iff_of_false Bool.false_ne_true
      rintro ⟨range, hrange, -, hle⟩
      have := hfind range hrange
      simp only [Bool.not_eq_true', decide_eq_false_iff_not, not_not] at this
      omega
  | some range =>
      obtain ⟨hreaches, front, rest, hranges, hfront⟩ := List.find?_eq_some_iff_append.mp hfind
      have hreach : frame ≤ range.last := by
        simpa using hreaches
      rw [hranges] at hapart ⊢
      rw [decide_eq_true_eq]
      constructor
      · intro hin
        exact ⟨range, by simp, hin⟩
      · rintro ⟨other, hother, hfirst, hlast⟩
        rcases List.mem_append.mp hother with hother | hother
        · -- such a range has been passed
          have hpass := hfront other hother
          simp only [Bool.not_not, decide_eq_true_eq] at hpass
          omega
        · rcases List.mem_cons.mp hother with rfl | hother
          · exact ⟨hfirst, hlast⟩
          · -- a later range starts behind the end of this one
            have hlater := (List.pairwise_cons.mp (List.pairwise_append.mp hapart).2.1).1 other
              hother
            omega

/-- **All calls.**  For frames that do not decrease, each answer is right. -/
theorem selections_eq (hapart : Apart handler.mRanges)
    (hpassed : ∀ frame ∈ frames, Passed handler frame) (hframes : frames.Pairwise (· ≤ ·)) :
    selections handler frames = frames.map fun frame => decide (Selected handler.mRanges frame) := by
  induction frames generalizing handler with
  | nil => rfl
  | cons frame frames ih =>
      have hfirst := hpassed frame List.mem_cons_self
      obtain ⟨hle, hrest⟩ := List.pairwise_cons.mp hframes
      have hnext : ∀ later ∈ frames, Passed (isFrameSelected handler frame).2 later :=
        fun later hlater => hfirst.isFrameSelected.mono (hle later hlater)
      rw [selections, List.map_cons, isFrameSelected_eq hapart hfirst]
      congr 1
      exact ih hapart hnext hrest

end Selector

/-! ### The lists that mean what they say -/

/-- The parser takes the text exactly if it is a list of frames, and for what it is; and with the
ranges that it has read, the frames that lie in one of them are selected. -/
structure MeansWhatItSays (spec : Text) : Prop where
  succeeds_iff : (parseReplayScreenshotRanges spec).error = none ↔ ∃ ranges, WellFormed spec ranges
  ranges : (parseReplayScreenshotRanges spec).error = none →
    WellFormed spec (parseReplayScreenshotRanges spec).out
  selected : (parseReplayScreenshotRanges spec).error = none →
    ∀ frames : List Nat, frames.Pairwise (· ≤ ·) →
      selections (setRanges (parseReplayScreenshotRanges spec).out) frames =
        frames.map fun frame => decide (Selected (parseReplayScreenshotRanges spec).out frame)

section Main

variable {spec : Text} {ranges : List ReplayScreenshotRange}

theorem tolerated_of_succeeds (h : (parseReplayScreenshotRanges spec).error = none) :
    Tolerated spec (parseReplayScreenshotRanges spec).out := by
  rw [← parse_eq_iff, ← h]

theorem Tolerated.apart (h : Tolerated spec ranges) : Apart ranges := by
  apply h.2.2.apart
  have hflip : List.Forall₂ (fun range token => Denotes LooseNumber token range) ranges
      ((spec.splitOn comma).filter (· ≠ [])) := h.2.1.flip
  exact ((List.forall₂_and_left _ _).mp (hflip.imp fun _ _ ht => ⟨ht.first_le_last, ht⟩)).1

/-- The selector is right for every list that the parser takes. -/
theorem Tolerated.selections_eq (h : Tolerated spec ranges) {frames : List Nat}
    (hframes : frames.Pairwise (· ≤ ·)) :
    selections (setRanges ranges) frames =
      frames.map fun frame => decide (Selected ranges frame) :=
  ReplayScreenshot.selections_eq h.apart (fun _ _ => ForwardCursor.behind_zero) hframes

/-- **Lists of frames.**  A text means what it says exactly if it has no plus, no zero byte and no
empty token, or is no list of frames even where these are let through. -/
theorem means_what_it_says_iff (spec : Text) :
    MeansWhatItSays spec ↔ Plain spec ∨ ¬ ∃ ranges, Tolerated spec ranges := by
  constructor
  · intro h
    rw [or_iff_not_imp_right, not_not]
    rintro ⟨ranges, htolerated⟩
    have hparse := (parse_eq_iff spec ranges).mpr htolerated
    exact (h.ranges (by rw [hparse])).plain
  · intro h
    have hwell : ∀ ranges, Tolerated spec ranges → WellFormed spec ranges := by
      intro ranges htolerated
      rcases h with hplain | hnone
      · exact htolerated.wellFormed hplain
      · exact absurd ⟨ranges, htolerated⟩ hnone
    have hranges : (parseReplayScreenshotRanges spec).error = none →
        WellFormed spec (parseReplayScreenshotRanges spec).out := fun herror =>
      hwell _ (tolerated_of_succeeds herror)
    constructor
    · constructor
      · exact fun herror => ⟨_, hranges herror⟩
      · rintro ⟨ranges, hformed⟩
        rw [(parse_eq_iff spec ranges).mpr hformed.tolerated]
    · exact hranges
    · exact fun herror frames hframes =>
        (tolerated_of_succeeds herror).selections_eq hframes

/-- The text "1,,2" is taken for the list "1,2". -/
theorem empty_token_dropped : ¬ ∀ spec : Text, MeansWhatItSays spec := by
  intro h
  have hparse : parseReplayScreenshotRanges [49, 44, 44, 50] = ⟨[⟨1, 1⟩, ⟨2, 2⟩], none⟩ := by
    decide
  have hformed := (h [49, 44, 44, 50]).ranges (by rw [hparse])
  exact hformed.plain.2.2 (by decide)

end Main

end ReplayScreenshot
end Lavatube
