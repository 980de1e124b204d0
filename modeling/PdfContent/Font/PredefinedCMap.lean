import PdfContent.Font.Charset
import PdfContent.Text.Search

/-!
Predefined character maps, known by name. The name tells how codes are read and in what charset
they are; the table from codes to CIDs is not part of a document.
-/

namespace PdfContent

inductive PredefinedCMap
  | identity (vertical : Bool)
  | utf16 (vertical : Bool)
  | legacy (charset : Charset) (vertical : Bool)
  deriving DecidableEq, Inhabited

namespace PredefinedCMap

def charsets : List (String × Charset) :=
  [("GBK-EUC", .gbk), ("GB-EUC", .gbk), ("GBpc-EUC", .gbk), ("GBK2K", .gbk),
   ("B5pc", .big5), ("ETen-B5", .big5), ("HKscs-B5", .big5), ("ETenms-B5", .big5),
   ("90ms-RKSJ", .shiftJis), ("90pv-RKSJ", .shiftJis), ("83pv-RKSJ", .shiftJis),
   ("78-RKSJ", .shiftJis), ("Add-RKSJ", .shiftJis), ("Ext-RKSJ", .shiftJis),
   ("90msp-RKSJ", .shiftJis), ("EUC", .eucJp), ("78-EUC", .eucJp), ("KSC-EUC", .eucKr),
   ("KSCms-UHC", .eucKr), ("KSCpc-EUC", .eucKr), ("KSCms-UHC-HW", .eucKr)]

def splitDirection (name : List Char) : List Char × Bool :=
  match name.reverse with
  | 'H' :: '-' :: base => (base.reverse, false)
  | 'V' :: '-' :: base => (base.reverse, true)
  | _ => (name, false)

def has (word : String) (name : List Char) : Bool := (Text.cut? word.toList name).isSome

def ofName? (name : String) : Option PredefinedCMap :=
  let (base, vertical) := splitDirection name.toList
  if base == "Identity".toList then some (identity vertical)
  else if "Uni".toList.isPrefixOf base && (has "-UCS2" base || has "-UTF16" base) then
    some (utf16 vertical)
  else (charsets.lookup (String.ofList base)).map fun charset => legacy charset vertical

def isVertical : PredefinedCMap → Bool
  | identity v => v
  | utf16 v => v
  | legacy _ v => v

end PredefinedCMap

end PdfContent
