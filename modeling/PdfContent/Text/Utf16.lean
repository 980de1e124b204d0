/-!
Text from UTF-16 code units. A surrogate must stand in a pair, high before low.
-/

namespace PdfContent.Text.Utf16

def isHigh (u : Nat) : Bool := 0xD800 ≤ u && u ≤ 0xDBFF

def isLow (u : Nat) : Bool := 0xDC00 ≤ u && u ≤ 0xDFFF

def pair (high low : Nat) : Char :=
  Char.ofNat (0x10000 + (high - 0xD800) * 0x400 + (low - 0xDC00))

def decode? : List Nat → Option (List Char)
  | [] => some []
  | [u] => if isHigh u || isLow u then none else some [Char.ofNat u]
  | u :: v :: rest =>
    if isHigh u then
      if isLow v then (decode? rest).map (pair u v :: ·) else none
    else if isLow u then none
    else (decode? (v :: rest)).map (Char.ofNat u :: ·)

end PdfContent.Text.Utf16
