import PdfContent.Bytes

/-!
Legacy East Asian charsets: which bytes start a code of two bytes. The characters of their codes are
no part of a document.
-/

namespace PdfContent

inductive Charset
  | gbk
  | big5
  | shiftJis
  | eucJp
  | eucKr
  deriving DecidableEq, Inhabited

namespace Charset

def label : Charset → String
  | gbk => "GBK"
  | big5 => "Big5"
  | shiftJis => "Shift_JIS"
  | eucJp => "EUC-JP"
  | eucKr => "EUC-KR"

def isLead (charset : Charset) (b : UInt8) : Bool :=
  match charset with
  | shiftJis => (0x81 ≤ b && b ≤ 0x9F) || (0xE0 ≤ b && b ≤ 0xFC)
  | eucJp => (0xA1 ≤ b && b ≤ 0xFE) || b == 0x8E
  | _ => 0x81 ≤ b && b ≤ 0xFE

end Charset

end PdfContent
