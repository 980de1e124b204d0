import PdfContent.Failure
import PdfContent.Font.CMap.Cid
import PdfContent.Font.PredefinedCMap

/-!
Splitting shown strings into character codes. A reader tells from the bytes ahead how long the next
code is; a string must end where a code ends.
-/

namespace PdfContent

structure CharCode where
  code : Nat
  bytes : Bytes
  deriving DecidableEq, Inhabited

inductive CodeReader
  | singleByte
  | twoByte
  | utf16
  | legacy (charset : Charset)
  | codespace (ranges : List CodespaceRange)
  deriving DecidableEq, Inhabited

namespace CodeReader

def ofPredefined : PredefinedCMap → CodeReader
  | .identity _ => twoByte
  | .utf16 _ => utf16
  | .legacy charset _ => legacy charset

/-- Without a codespace, codes have two bytes. -/
def ofEmbedded (m : CidCMap) : CodeReader :=
  if m.codespaces.isEmpty then twoByte else codespace m.codespaces

def shortest? (ranges : List CodespaceRange) : Option Nat :=
  (ranges.map CodespaceRange.byteLength).min?

/-- The shortest of the lengths one to four that has a range covering the bytes ahead. When none
has, the code is as long as the shortest range that covers its first byte, or else as the shortest
range. -/
def codespaceLength (ranges : List CodespaceRange) (first : UInt8) (rest : Bytes) : Nat :=
  let covers (n : Nat) : Bool := ranges.any fun r => r.byteLength == n && r.covers (first :: rest)
  match [1, 2, 3, 4].find? covers with
  | some n => n
  | none =>
    ((shortest? (ranges.filter fun r => r.coversFirst first)).or (shortest? ranges)).getD 1

def codeLength (reader : CodeReader) (first : UInt8) (rest : Bytes) : Nat :=
  match reader with
  | singleByte => 1
  | twoByte => 2
  | utf16 => if 0xD8 ≤ first && first ≤ 0xDB then 4 else 2
  | legacy charset => if charset.isLead first then 2 else 1
  | codespace ranges => codespaceLength ranges first rest

/-- A code is the big-endian number of its bytes, in 32 bits. -/
def ofBytes (bytes : Bytes) : CharCode := ⟨Bytes.bigEndian bytes % 0x100000000, bytes⟩

def readFrom (reader : CodeReader) (offset : Nat) : Bytes → Except FontFault (List CharCode)
  | [] => .ok []
  | first :: rest =>
    let length := reader.codeLength first rest
    if rest.length < length - 1 then .error (.truncatedCode length offset)
    else
      (readFrom reader (offset + length) (rest.drop (length - 1))).map fun codes =>
        ofBytes (first :: rest.take (length - 1)) :: codes
termination_by s => s.length
decreasing_by simp only [List.length_drop, List.length_cons]; omega

def readCodes (reader : CodeReader) (s : Bytes) : Except FontFault (List CharCode) :=
  reader.readFrom 0 s

end CodeReader

end PdfContent
