import PdfContent.Bytes
import PdfContent.Failure
import PdfContent.Text.Blank
import PdfContent.Text.Search
import PdfContent.Text.Utf16
import PdfContent.Text.Utf8

/-!
The notation that all character maps share: sections between `begin` and `end` words, one entry on
a line, codes and texts as hexadecimal digits in angle brackets.
-/

namespace PdfContent.CMap

def greatestSpan : Nat := 0xFFFF

/-- How far a range of codes reaches; `none` when it is inverted or too wide. -/
def span? (low high : Nat) : Option Nat :=
  if low ≤ high && high - low ≤ greatestSpan then some (high - low) else none

def sections (keyword : List Char) (text : List Char) : List (List Char) :=
  match _ : Text.cut? ("begin".toList ++ keyword) text with
  | none => []
  | some (_, body) =>
    match _ : Text.cut? ("end".toList ++ keyword) body with
    | none => []
    | some (inner, rest) => inner :: sections keyword rest
termination_by text.length
decreasing_by
  have := Text.cut?_length ‹Text.cut? _ text = _›
  have := Text.cut?_length ‹Text.cut? _ body = _›
  have : "begin".toList.length = 5 := by decide
  simp only [List.length_append] at *
  omega

def entryLines (keyword : String) (text : List Char) : List (List Char) :=
  (sections keyword.toList text).flatMap Text.lines

def hexTokens (line : List Char) : List (List Char) :=
  match _ : Text.cut? ['<'] line with
  | none => []
  | some (_, inner) =>
    match _ : Text.cut? ['>'] inner with
    | none => []
    | some (token, rest) => Text.trimChars token :: hexTokens rest
termination_by line.length
decreasing_by
  have := Text.cut?_length ‹Text.cut? _ line = _›
  have := Text.cut?_length ‹Text.cut? _ inner = _›
  simp only [List.length_cons, List.length_nil] at *
  omega

def trailingNumber? (line : List Char) : Option Nat :=
  if '>' ∈ line then
    Numeral.parse? 10 Numeral.greatest32 (Text.trimChars (Text.afterLast '>' line))
  else none

def hexCode (hex : List Char) : Except FontFault Nat :=
  (Numeral.parse 16 Numeral.greatest32 hex).mapError fun cause =>
    .invalidHexCode (String.ofList hex) cause

def pairByte (hex pair : List Char) : Except FontFault UInt8 :=
  (Numeral.parse 16 Numeral.greatest8 pair).map Nat.toUInt8 |>.mapError fun cause =>
    .invalidHexCode (String.ofList hex) cause

/-- The bytes that pairs of digits spell, from left to right. A pair is two bytes of the text. Where
these end inside a character, they cannot be cut out. -/
def hexPairs (hex : List Char) : List Char → Except FontFault Bytes
  | [] => .ok []
  | a :: rest =>
    if a.utf8Size = 2 then do
      let byte ← pairByte hex [a]
      let bytes ← hexPairs hex rest
      return byte :: bytes
    else
      match rest with
      | b :: rest =>
        if a.utf8Size = 1 ∧ b.utf8Size = 1 then do
          let byte ← pairByte hex [a, b]
          let bytes ← hexPairs hex rest
          return byte :: bytes
        else .error (.crash .insideCharacter)
      | [] => .error (.crash .insideCharacter)

/-- Length is counted in the bytes of the text. -/
def hexBytes (hex : List Char) : Except FontFault Bytes :=
  if Text.Utf8.size hex % 2 != 0 then .error (.oddHexCode (String.ofList hex))
  else hexPairs hex hex

/-- Big-endian code units; a byte left over is the high half of one more. -/
def units : Bytes → List Nat
  | [] => []
  | [a] => [a.toNat * 256]
  | a :: b :: rest => (a.toNat * 256 + b.toNat) :: units rest

/-- The text that a destination spells in UTF-16. A single byte is one character. -/
def destination (hex : List Char) : Except FontFault (List Char) := do
  match ← hexBytes hex with
  | [b] => return [Byte.toChar b]
  | bytes =>
    match Text.Utf16.decode? (units bytes) with
    | some text => return text
    | none => throw .loneSurrogate

end PdfContent.CMap
