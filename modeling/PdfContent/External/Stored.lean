import PdfContent.Document.Basic
import PdfContent.Number.Decimal
import PdfContent.Operand

/-!
Documents after they were written to a file and read back. Nearly everything comes back as it was.
A real without a fraction is written without a point, so it comes back as an integer; objects that
describe a file are not written, and the file has one such object of its own, which says where the
others stand.
-/

namespace PdfContent

namespace PdfObject

def storedReal (x : Float) : PdfObject :=
  match (wholeNumber? x).filter Decimal.inInt64 with
  | some i => integer i
  | none => real x

mutual

def stored : PdfObject → PdfObject
  | real x => storedReal x
  | array items => array (storedItems items)
  | dictionary d => dictionary (storedEntries d)
  | stream d data => stream (storedEntries d) data
  | o => o

def storedItems : List PdfObject → List PdfObject
  | [] => []
  | o :: rest => stored o :: storedItems rest

def storedEntries : List (Bytes × PdfObject) → List (Bytes × PdfObject)
  | [] => []
  | (key, o) :: rest => (key, stored o) :: storedEntries rest

end

def describesFile (o : PdfObject) : Bool :=
  match o.dictionary? with
  | some d =>
    match d.entry? "Type" with
    | some (.name _) => ["ObjStm", "XRef", "Linearized"].any (d.isNamed "Type")
    | _ => d.has "Linearized"
  | none => false

end PdfObject

namespace Document

/-- A file has one object for each number, that of the latest generation. -/
def isLatest (doc : Document) (id : ObjectId) : Bool :=
  doc.ids.all fun other => other.number != id.number || other.generation ≤ id.generation

def greatestNumber (doc : Document) : Nat :=
  doc.ids.foldl (fun n id => max n id.number) 0

def positions (doc : Document) : ObjectId × PdfObject :=
  (⟨doc.greatestNumber + 1, 0⟩,
    .stream ((Bytes.ofLatin "Type", .name (Bytes.ofLatin "XRef")) :: doc.trailer) [])

def stored (doc : Document) : Document :=
  let kept := doc.objects.filter fun e => doc.isLatest e.1 && !e.2.describesFile
  { doc with objects := (kept.map fun e => (e.1, e.2.stored)) ++ [doc.positions] }

end Document

end PdfContent
