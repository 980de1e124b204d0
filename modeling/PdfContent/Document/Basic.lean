import PdfContent.Document.Object
import PdfContent.Font.Charset
import PdfContent.Font.Face

/-!
Documents: objects by number, and the trailer that says where to start. A reference may lead to
another one; a chain of references is followed for a bounded number of steps. Pages are numbered,
and filtered streams, legacy charsets and font files decoded, by other libraries: what these answer
comes with the document.
-/

namespace PdfContent

/-- What other libraries decode. A decoder says in its own words why it fails. -/
structure Decoders where
  stream : Dictionary → Bytes → Except String Bytes := fun _ _ => .error ""
  charset : Charset → Bytes → Option (List Char) := fun _ _ => none
  face : Bytes → Except String Face := fun _ => .error ""
  deriving Inhabited

structure Document where
  objects : List (ObjectId × PdfObject) := []
  trailer : Dictionary := []
  pages : List ObjectId := []
  decoders : Decoders := {}
  deriving Inhabited

namespace Document

def ids (doc : Document) : List ObjectId := doc.objects.map Prod.fst

def referenceLimit : Nat := 128

/-- Follows references from an object, `steps` more of them at most. -/
def follow (doc : Document) (steps : Nat) (o : PdfObject) : Except ObjectFault PdfObject :=
  match o with
  | .reference id =>
    match doc.objects.lookup id, steps with
    | none, _ => .error (.missing id)
    | some _, 0 => .error .endlessReference
    | some target, n + 1 => follow doc n target
  | _ => .ok o

def object (doc : Document) (id : ObjectId) : Except ObjectFault PdfObject :=
  match doc.objects.lookup id with
  | none => .error (.missing id)
  | some o => doc.follow referenceLimit o

/-- The object behind a reference; a reference that leads nowhere stays. -/
def resolve (doc : Document) (o : PdfObject) : PdfObject :=
  match o with
  | .reference id => (doc.object id).toOption.getD o
  | _ => o

def get? (doc : Document) (d : Dictionary) (key : String) : Option PdfObject :=
  (d.entry? key).map doc.resolve

def number? (doc : Document) (d : Dictionary) (key : String) : Option Float :=
  (doc.get? d key).bind PdfObject.number?

def integer? (doc : Document) (d : Dictionary) (key : String) : Option Int :=
  (doc.get? d key).bind PdfObject.integer?

def boolean? (doc : Document) (d : Dictionary) (key : String) : Option Bool :=
  (doc.get? d key).bind PdfObject.boolean?

def name? (doc : Document) (d : Dictionary) (key : String) : Option String :=
  (doc.get? d key).bind PdfObject.name?

def array? (doc : Document) (d : Dictionary) (key : String) : Option (List PdfObject) :=
  (doc.get? d key).bind PdfObject.array?

def dictionary? (doc : Document) (d : Dictionary) (key : String) : Option Dictionary :=
  (doc.get? d key).bind PdfObject.dictionary?

def size? (doc : Document) (d : Dictionary) (key : String) : Option Nat :=
  (doc.integer? d key).bind Numeral.unsigned32?

def names (doc : Document) (items : List PdfObject) : List String :=
  items.filterMap fun o => (doc.resolve o).name?

def filterNames (doc : Document) (d : Dictionary) : List String :=
  match doc.get? d "Filter" with
  | some (.array items) => doc.names items
  | some o => o.name?.toList
  | none => []

/-- The data of a stream, decoded where a filter is named. -/
def streamData (doc : Document) (entries : Dictionary) (data : Bytes) :
    Except DocumentFault Bytes :=
  if entries.has "Filter" then (doc.decoders.stream entries data).mapError .streamUndecodable
  else .ok data

end Document

end PdfContent
