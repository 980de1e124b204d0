import PdfContent.Document.Basic
import PdfContent.ExtGState

/-!
Graphics state parameter dictionaries of a document. An entry that is malformed counts as absent. A
font given by reference is named by that reference.
-/

namespace PdfContent.Document

def fontNameOf? : PdfObject → Option String
  | .reference id => some id.reference
  | o => o.name?

def fontSelection? (doc : Document) (d : Dictionary) : Option FontSelection := do
  let items ← doc.array? d "Font"
  let name ← items.head?.bind fontNameOf?
  let size ← (items[1]?.map doc.resolve).bind PdfObject.number?
  return ⟨name, size⟩

def blendMode? (doc : Document) (d : Dictionary) : Option BlendMode :=
  match doc.get? d "BM" with
  | some (.array items) => some (.array (doc.names items))
  | some o => o.name?.map .name
  | none => none

def softMask? (doc : Document) (d : Dictionary) : Option SoftMask :=
  match doc.get? d "SMask" with
  | some (.dictionary mask) =>
    some { subtype := (doc.name? mask "S").getD "", hasGroup := Dictionary.has mask "G" }
  | _ => none

def clearsSoftMask (doc : Document) (d : Dictionary) : Bool := doc.name? d "SMask" == some "None"

def numbers? (doc : Document) (items : List PdfObject) : Option (List Float) :=
  items.mapM fun o => (doc.resolve o).number?

def dash? (doc : Document) (d : Dictionary) : Option DashPattern := do
  let items ← doc.array? d "D"
  let lengths ← (items.head?.map doc.resolve).bind PdfObject.array?
  let array ← doc.numbers? lengths
  let phase ← (items[1]?.map doc.resolve).bind PdfObject.number?
  return ⟨array, phase⟩

def transfers (doc : Document) (d : Dictionary) (key : String) : Bool :=
  match doc.get? d key with
  | some o => o.name? != some "Default"
  | none => false

def readExtGState (doc : Document) (d : Dictionary) : ExtGState where
  font := doc.fontSelection? d
  blendMode := doc.blendMode? d
  softMask := doc.softMask? d
  softMaskCleared := doc.clearsSoftMask d
  strokeAlpha := doc.number? d "CA"
  fillAlpha := doc.number? d "ca"
  lineWidth := doc.number? d "LW"
  dashPattern := doc.dash? d
  hasTransferFunction := doc.transfers d "TR" || doc.transfers d "TR2"
  hasHalftone := d.has "HT"

end PdfContent.Document
