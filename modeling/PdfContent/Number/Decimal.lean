import PdfContent.Bytes

/-!
Decimal numerals. A digit string denotes a natural number; with a point it denotes the double
nearest to its exact value. Integers are kept when they fit in 64 bits.
-/

namespace PdfContent.Decimal

def ofDigits (digits : Bytes) : Nat := digits.foldl (fun n b => n * 10 + Byte.digitValue b) 0

def int64Min : Int := -0x8000000000000000
def int64Max : Int := 0x7FFFFFFFFFFFFFFF

def inInt64 (i : Int) : Bool := int64Min ≤ i && i ≤ int64Max

/-- The double nearest to `digits / 10 ^ places`, with the sign kept also on zero. -/
def nearest (negative : Bool) (digits : Bytes) (places : Nat) : Float :=
  let magnitude := Float.ofScientific (ofDigits digits) true places
  if negative then -magnitude else magnitude

end PdfContent.Decimal
