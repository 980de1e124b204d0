import PdfContent.Font.Charset

/-!
The characters of some codes of the legacy East Asian charsets: the rows of full-width forms, kana
and the first ideographs of each. Another code has no text.
-/

namespace PdfContent.External.Charsets

structure Row where
  first : Nat
  last : Nat
  char : Nat
  deriving Inhabited

def ascii : Row := ⟨0x00, 0x7F, 0x00⟩

def rows : Charset → List Row
  | .gbk =>
    [⟨0x80, 0x80, 0x20AC⟩, ⟨0x82A0, 0x82A0, 0x5041⟩, ⟨0xA1A1, 0xA1A1, 0x3000⟩,
     ⟨0xA3B0, 0xA3B9, 0xFF10⟩, ⟨0xA3C1, 0xA3DA, 0xFF21⟩, ⟨0xA3E1, 0xA3FA, 0xFF41⟩,
     ⟨0xA4A1, 0xA4F3, 0x3041⟩, ⟨0xA5A1, 0xA5F6, 0x30A1⟩, ⟨0xB0A1, 0xB0A1, 0x554A⟩]
  | .big5 =>
    [⟨0xA140, 0xA140, 0x3000⟩, ⟨0xA2AF, 0xA2B8, 0xFF10⟩, ⟨0xA440, 0xA440, 0x4E00⟩]
  | .shiftJis =>
    [⟨0x80, 0x80, 0x80⟩, ⟨0xA1, 0xDF, 0xFF61⟩, ⟨0x8140, 0x8140, 0x3000⟩,
     ⟨0x824F, 0x8258, 0xFF10⟩, ⟨0x8260, 0x8279, 0xFF21⟩, ⟨0x8281, 0x829A, 0xFF41⟩,
     ⟨0x829F, 0x82F1, 0x3041⟩, ⟨0x8340, 0x837E, 0x30A1⟩, ⟨0x8380, 0x8396, 0x30E0⟩,
     ⟨0x889F, 0x889F, 0x4E9C⟩]
  | .eucJp =>
    [⟨0x8EA1, 0x8EDF, 0xFF61⟩, ⟨0xA1A1, 0xA1A1, 0x3000⟩, ⟨0xA3B0, 0xA3B9, 0xFF10⟩,
     ⟨0xA3C1, 0xA3DA, 0xFF21⟩, ⟨0xA3E1, 0xA3FA, 0xFF41⟩, ⟨0xA4A1, 0xA4F3, 0x3041⟩,
     ⟨0xA5A1, 0xA5F6, 0x30A1⟩, ⟨0xB0A1, 0xB0A1, 0x4E9C⟩]
  | .eucKr =>
    [⟨0xA1A1, 0xA1A1, 0x3000⟩, ⟨0xA3B0, 0xA3B9, 0xFF10⟩, ⟨0xA3C1, 0xA3DA, 0xFF21⟩,
     ⟨0xA3E1, 0xA3FA, 0xFF41⟩, ⟨0xAAA1, 0xAAF3, 0x3041⟩, ⟨0xABA1, 0xABF6, 0x30A1⟩,
     ⟨0xB0A1, 0xB0A1, 0xAC00⟩]

def rowText? (code : Nat) (row : Row) : Option (List Char) :=
  if row.first ≤ code && code ≤ row.last then some [Char.ofNat (row.char + (code - row.first))]
  else none

/-- The text of one code. The bytes of a byte-order mark have an empty text. -/
def decode? (charset : Charset) (bytes : Bytes) : Option (List Char) :=
  match bytes with
  | [a] => (ascii :: rows charset).findSome? (rowText? a.toNat)
  | [0xFE, 0xFF] => some []
  | [_, _] => (rows charset).findSome? (rowText? (Bytes.bigEndian bytes))
  | _ => none

end PdfContent.External.Charsets
