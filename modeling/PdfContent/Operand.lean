import PdfContent.Number.Decimal

/-!
Operands of content stream operators, and the readings an operator makes of them. An integer
counts as a number; a real counts as an integer when it has no fraction.
-/

namespace PdfContent

inductive Operand
  | null
  | boolean (value : Bool)
  | integer (value : Int)
  | real (value : Float)
  | name (text : String)
  | literal (bytes : Bytes)
  | hex (bytes : Bytes)
  | array (items : List Operand)
  | dictionary (entries : List (String × Operand))
  deriving Inhabited

def wholeMantissa? (mantissa : Nat) (exponent : Int) : Option Nat :=
  if 0 ≤ exponent then some (mantissa <<< exponent.toNat)
  else
    let whole := mantissa >>> (-exponent).toNat
    if whole <<< (-exponent).toNat == mantissa then some whole else none

/-- The integer a real without fraction stands for, held within 64 bits. -/
def wholeNumber? (x : Float) : Option Int :=
  match x.toModel.unpack with
  | .zero _ => some 0
  | .finite sign mantissa exponent _ =>
    (wholeMantissa? mantissa exponent).map fun n : Nat =>
      max Decimal.int64Min (min (sign.apply n) Decimal.int64Max)
  | _ => none

namespace Operand

def number? : Operand → Option Float
  | integer i => some (Float.ofInt i)
  | real x => some x
  | _ => none

def integer? : Operand → Option Int
  | integer i => some i
  | real x => wholeNumber? x
  | _ => none

def name? : Operand → Option String
  | name n => some n
  | _ => none

def bytes? : Operand → Option Bytes
  | literal b => some b
  | hex b => some b
  | _ => none

def items? : Operand → Option (List Operand)
  | array xs => some xs
  | _ => none

def entries? : Operand → Option (List (String × Operand))
  | dictionary es => some es
  | _ => none

def get? (key : String) : Operand → Option Operand
  | dictionary es => es.lookup key
  | _ => none

end Operand

end PdfContent
