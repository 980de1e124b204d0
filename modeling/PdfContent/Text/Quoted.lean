import PdfContent.Text.Printable

/-!
Quoted text. The quote that delimits, the backslash and the usual controls are written with a
backslash, and characters without a shape by their number; everything else stands for itself.
-/

namespace PdfContent.Text.Quoted

def hexDigits (n : Nat) : List Char := Nat.toDigits 16 n

def escape (quote c : Char) : List Char :=
  if c == quote || c == '\\' then ['\\', c]
  else if c == '\n' then ['\\', 'n']
  else if c == '\r' then ['\\', 'r']
  else if c == '\t' then ['\\', 't']
  else if c.toNat == 0 then ['\\', '0']
  else if isShapeless c then ['\\', 'u', '\x7b'] ++ hexDigits c.toNat ++ ['\x7d']
  else [c]

def char (c : Char) : String := String.ofList (['\''] ++ escape '\'' c ++ ['\''])

def string (s : String) : String :=
  String.ofList (['"'] ++ s.toList.flatMap (escape '"') ++ ['"'])

end PdfContent.Text.Quoted
