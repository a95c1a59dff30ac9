import Mathlib.Tactic.Common
import MiniRedis.Foundation.Effect

/-!
# The `str` and `bytes` of Python

`strip`, `upper`, the conversion between `int` and text and the UTF-8 codec, as far as the
program looks at their results. A string is a list of Unicode scalar values; the result of
`upper` is only ever compared with ASCII names, so characters whose upper case is not ASCII
are left as they are.
-/

/-- A `bytes` object. -/
abbrev Bytes : Type := List UInt8

namespace Bytes

/-- `text.encode("utf-8")`. -/
def ofText (text : String) : Bytes := text.toByteArray.data.toList

/-- `raw.decode("utf-8")`, or `none` for a `UnicodeDecodeError`. -/
def toText? (raw : Bytes) : Option String := String.fromUTF8? ⟨raw.toArray⟩

/-- `raw.decode("ascii")`, or `none` for a `UnicodeDecodeError`. -/
def toAscii? (raw : Bytes) : Option String :=
  if raw.all (· < 128) then some (String.ofList (raw.map fun byte => Char.ofNat byte.toNat))
  else none

/-- `b"\r\n"`. -/
def crlf : Bytes := [13, 10]

/-- Decoding undoes encoding. -/
@[simp] theorem to_text_of_text (text : String) : toText? (ofText text) = some text := by
  have hbytes : (⟨(ofText text).toArray⟩ : ByteArray) = text.toByteArray := by
    simp [ofText]
  rw [toText?, hbytes, String.fromUTF8?, dif_pos text.isValidUTF8]
  rfl

/-- Encoding undoes a successful decoding. -/
theorem of_text_to_text {raw : Bytes} {text : String} (h : toText? raw = some text) :
    ofText text = raw := by
  unfold toText? String.fromUTF8? at h
  split at h
  · cases h
    rfl
  · cases h

end Bytes

namespace PyText

/-- `str.isspace` on one character. -/
def isSpace (c : Char) : Bool :=
  c.toNat ∈ [0x9, 0xA, 0xB, 0xC, 0xD, 0x1C, 0x1D, 0x1E, 0x1F, 0x20, 0x85, 0xA0, 0x1680, 0x2000,
    0x2001, 0x2002, 0x2003, 0x2004, 0x2005, 0x2006, 0x2007, 0x2008, 0x2009, 0x200A, 0x2028, 0x2029,
    0x202F, 0x205F, 0x3000]

/-- Drop the characters that satisfy `space` from both ends. -/
def trim (space : Char → Bool) (text : List Char) : List Char :=
  ((text.dropWhile space).reverse.dropWhile space).reverse

/-- `text.strip()`. -/
def strip (text : String) : String := String.ofList (trim isSpace text.toList)

/-- The upper case of a character, as far as it is ASCII: besides the ASCII letters, some
letters and ligatures outside ASCII have an ASCII upper case. -/
def upperChar (c : Char) : List Char :=
  match c.toNat with
  | 0xDF => ['S', 'S']
  | 0x131 => ['I']
  | 0x17F => ['S']
  | 0xFB00 => ['F', 'F']
  | 0xFB01 => ['F', 'I']
  | 0xFB02 => ['F', 'L']
  | 0xFB03 => ['F', 'F', 'I']
  | 0xFB04 => ['F', 'F', 'L']
  | 0xFB05 => ['S', 'T']
  | 0xFB06 => ['S', 'T']
  | _ => [c.toUpper]

/-- `text.upper()`. -/
def upper (text : String) : String := String.ofList (text.toList.flatMap upperChar)

/-- `text.lower()` of ASCII text. -/
def lower (text : String) : String := String.ofList (text.toList.map Char.toLower)

/-- `sys.get_int_max_str_digits()`. -/
def maxStrDigits : Nat := 4300

/-- The zeros of the decimal digits of Unicode. -/
def digitZeros : List Nat :=
  [0x30, 0x660, 0x6F0, 0x7C0, 0x966, 0x9E6, 0xA66, 0xAE6, 0xB66, 0xBE6, 0xC66, 0xCE6, 0xD66, 0xDE6,
    0xE50, 0xED0, 0xF20, 0x1040, 0x1090, 0x17E0, 0x1810, 0x1946, 0x19D0, 0x1A80, 0x1A90, 0x1B50,
    0x1BB0, 0x1C40, 0x1C50, 0xA620, 0xA8D0, 0xA900, 0xA9D0, 0xA9F0, 0xAA50, 0xABF0, 0xFF10, 0x104A0,
    0x10D30, 0x11066, 0x110F0, 0x11136, 0x111D0, 0x112F0, 0x11450, 0x114D0, 0x11650, 0x116C0,
    0x11730, 0x118E0, 0x11950, 0x11C50, 0x11D50, 0x11DA0, 0x16A60, 0x16AC0, 0x16B50, 0x1D7CE,
    0x1D7D8, 0x1D7E2, 0x1D7EC, 0x1D7F6, 0x1E140, 0x1E2F0, 0x1E950, 0x1FBF0]

/-- What `int` reads a character as: ASCII as it is, other spaces as a space and other decimal
digits as ASCII digits. -/
def intChar (c : Char) : Char :=
  if c.toNat < 127 then c
  else if isSpace c then ' '
  else
    match digitZeros.find? (fun first => first ≤ c.toNat && c.toNat ≤ first + 9) with
    | some first => Nat.digitChar (c.toNat - first)
    | none => '?'

/-- The spaces that `int` skips once the text is ASCII. -/
def isIntSpace (c : Char) : Bool := c.toNat ∈ [0x9, 0xA, 0xB, 0xC, 0xD, 0x20]

/-- A nonempty run of digits with single underscores between them: the digits alone. -/
def digitRun : List Char → Option (List Char)
  | [] => none
  | c :: rest =>
      if c.isDigit then
        match rest with
        | [] => some [c]
        | '_' :: tail => (digitRun tail).map (c :: ·)
        | next :: tail => (digitRun (next :: tail)).map (c :: ·)
      else none

/-- The value of a run of digits, unless it is longer than `int` accepts. -/
def parseDigits (text : List Char) : Option Nat :=
  match digitRun text with
  | some digits =>
      if digits.length ≤ maxStrDigits then some (Nat.ofDigitChars 10 digits 0) else none
  | none => none

/-- `int(text)`, or `none` for a `ValueError`. -/
def parseInt (text : String) : Option Int :=
  match trim isIntSpace (text.toList.map intChar) with
  | '-' :: digits => (parseDigits digits).map fun (n : Nat) => -(n : Int)
  | '+' :: digits => (parseDigits digits).map fun (n : Nat) => (n : Int)
  | digits => (parseDigits digits).map fun (n : Nat) => (n : Int)

/-- `str(n)` of a natural number, or `none` for the `ValueError` of a number that is too long. -/
def natText (n : Nat) : Option String :=
  if (Nat.toDigits 10 n).length ≤ maxStrDigits then some (String.ofList (Nat.toDigits 10 n))
  else none

/-- `str(n)`. -/
def intText (n : Int) : Except PyError String :=
  match natText n.natAbs with
  | some digits => .ok (if n < 0 then "-" ++ digits else digits)
  | none => .error (.valueError
      "Exceeds the limit (4300 digits) for integer string conversion; use sys.set_int_max_str_digits() to increase the limit")

end PyText
