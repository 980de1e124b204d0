/-!
Byte strings and the byte classes of PDF syntax. Every byte is blank, a delimiter or regular;
names, numbers and keywords are runs of regular bytes.
-/

namespace PdfContent

abbrev Bytes := List UInt8

namespace Byte

abbrev tab : UInt8 := 0x09
abbrev lineFeed : UInt8 := 0x0A
abbrev formFeed : UInt8 := 0x0C
abbrev carriageReturn : UInt8 := 0x0D
abbrev space : UInt8 := 0x20
abbrev hash : UInt8 := 0x23
abbrev percent : UInt8 := 0x25
abbrev openParen : UInt8 := 0x28
abbrev closeParen : UInt8 := 0x29
abbrev plus : UInt8 := 0x2B
abbrev minus : UInt8 := 0x2D
abbrev dot : UInt8 := 0x2E
abbrev slash : UInt8 := 0x2F
abbrev less : UInt8 := 0x3C
abbrev greater : UInt8 := 0x3E
abbrev openBracket : UInt8 := 0x5B
abbrev backslash : UInt8 := 0x5C
abbrev closeBracket : UInt8 := 0x5D
abbrev openBrace : UInt8 := 0x7B
abbrev closeBrace : UInt8 := 0x7D
abbrev tilde : UInt8 := 0x7E

def isBlank (b : UInt8) : Bool :=
  b == space || b == tab || b == carriageReturn || b == lineFeed || b == formFeed || b == 0

def isDelimiter (b : UInt8) : Bool :=
  b == openParen || b == closeParen || b == less || b == greater || b == openBracket ||
    b == closeBracket || b == openBrace || b == closeBrace || b == slash || b == percent

def isRegular (b : UInt8) : Bool := !isBlank b && !isDelimiter b

def isLineEnd (b : UInt8) : Bool := b == lineFeed || b == carriageReturn

def isDigit (b : UInt8) : Bool := 0x30 ≤ b && b ≤ 0x39

def isOctal (b : UInt8) : Bool := 0x30 ≤ b && b ≤ 0x37

def isLetter (b : UInt8) : Bool := (0x41 ≤ b && b ≤ 0x5A) || (0x61 ≤ b && b ≤ 0x7A)

def digitValue (b : UInt8) : Nat := b.toNat - 0x30

def hexValue (b : UInt8) : Option Nat :=
  if isDigit b then some (b.toNat - 0x30)
  else if 0x61 ≤ b && b ≤ 0x66 then some (b.toNat - 0x61 + 10)
  else if 0x41 ≤ b && b ≤ 0x46 then some (b.toNat - 0x41 + 10)
  else none

def toChar (b : UInt8) : Char := Char.ofNat b.toNat

end Byte

namespace Bytes

def ofLatin (s : String) : Bytes := s.toList.map fun c => c.toNat.toUInt8

def toLatin (bs : Bytes) : String := String.ofList (bs.map Byte.toChar)

def after? (b : UInt8) : Bytes → Option Bytes
  | [] => none
  | c :: s => if c == b then some s else none

theorem after?_eq_some {b : UInt8} {s r : Bytes} : after? b s = some r ↔ s = b :: r := by
  cases s with
  | nil => simp [after?]
  | cons c s => by_cases h : c = b <;> simp [after?, h]

def afterWord? : Bytes → Bytes → Option Bytes
  | [], s => some s
  | b :: word, s => (after? b s).bind (afterWord? word)

theorem afterWord?_eq_some {word s r : Bytes} : afterWord? word s = some r ↔ s = word ++ r := by
  induction word generalizing s with
  | nil => simp [afterWord?]
  | cons b word ih => simp [afterWord?, Option.bind_eq_some_iff, after?_eq_some, ih]

def bigEndian (bs : Bytes) : Nat := bs.foldl (fun n b => n * 256 + b.toNat) 0

def words : Bytes → List Nat
  | a :: b :: rest => (a.toNat * 256 + b.toNat) :: words rest
  | _ => []

def ofUtf8 (s : String) : Bytes := s.toList.flatMap String.utf8EncodeChar

end Bytes

end PdfContent
