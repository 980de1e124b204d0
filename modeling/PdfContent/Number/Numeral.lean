/-!
Unsigned numerals in text: digits with an optional plus sign, in a radix up to sixteen and up to a
greatest value. The first fault from the left decides what is reported; where a digit is both
invalid and too many, it is invalid.
-/

namespace PdfContent

inductive NumeralFault
  | empty
  | invalidDigit
  | tooLarge
  deriving DecidableEq, Inhabited

def NumeralFault.message : NumeralFault → String
  | empty => "cannot parse integer from empty string"
  | invalidDigit => "invalid digit found in string"
  | tooLarge => "number too large to fit in target type"

namespace Numeral

def digitValue? (radix : Nat) (c : Char) : Option Nat :=
  let value? : Option Nat :=
    if '0' ≤ c && c ≤ '9' then some (c.toNat - 0x30)
    else if 'a' ≤ c && c ≤ 'f' then some (c.toNat - 0x61 + 10)
    else if 'A' ≤ c && c ≤ 'F' then some (c.toNat - 0x41 + 10)
    else none
  value?.filter (· < radix)

def extend (radix greatest : Nat) (value : Nat) : List Char → Except NumeralFault Nat
  | [] => .ok value
  | c :: cs =>
    match digitValue? radix c with
    | none => .error .invalidDigit
    | some d =>
      if value * radix + d ≤ greatest then extend radix greatest (value * radix + d) cs
      else .error .tooLarge

def parse (radix greatest : Nat) : List Char → Except NumeralFault Nat
  | [] => .error .empty
  | ['+'] => .error .invalidDigit
  | '+' :: cs => extend radix greatest 0 cs
  | cs => extend radix greatest 0 cs

def parse? (radix greatest : Nat) (cs : List Char) : Option Nat :=
  (parse radix greatest cs).toOption

def greatest8 : Nat := 0xFF
def greatest16 : Nat := 0xFFFF
def greatest32 : Nat := 0xFFFFFFFF
def greatest64 : Nat := 0xFFFFFFFFFFFFFFFF

def unsigned32? (i : Int) : Option Nat :=
  if 0 ≤ i && i.toNat ≤ greatest32 then some i.toNat else none

end Numeral

end PdfContent
