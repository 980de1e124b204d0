import PdfContent.Document.PageTree

/-!
The pages of a document, numbered along the page tree. Walking down visits no more kids than the
document has objects.
-/

namespace PdfContent.External.PageNumbers

def treeDepth : Nat := 256

def kidsOf (doc : Document) (id : ObjectId) : List PdfObject :=
  match doc.node id with
  | .ok d =>
    match doc.get? d "Kids" with
    | some (.array kids) => kids
    | _ => []
  | .error _ => []

def isNode (doc : Document) (id : ObjectId) (type : String) : Bool :=
  match doc.node id with
  | .ok d => d.isNamed "Type" type
  | .error _ => false

/-- The pages among kids, in order. `pending` holds the kids still to visit on each level that is
open, innermost first, and `steps` how many kids may yet be visited. A level with no kids left is
not held open. -/
def walk (doc : Document) : Nat → List (List PdfObject) → List ObjectId
  | _, [] => []
  | 0, _ => []
  | steps + 1, [] :: pending => walk doc (steps + 1) pending
  | steps + 1, (kid :: kids) :: pending =>
    match kid with
    | .reference id =>
      if isNode doc id "Page" then
        id :: walk doc steps (kids :: pending)
      else if isNode doc id "Pages" && pending.length < treeDepth then
        walk doc steps (kidsOf doc id :: (if kids.isEmpty then pending else kids :: pending))
      else walk doc steps (kids :: pending)
    | _ => walk doc steps (kids :: pending)

def root? (doc : Document) : Option ObjectId := do
  let catalog ← (doc.trailer.entry? "Root").bind PdfObject.reference?
  let entries ← (doc.node catalog).toOption
  (entries.entry? "Pages").bind PdfObject.reference?

def pages (doc : Document) : List ObjectId :=
  match root? doc with
  | some id => walk doc doc.objects.length [kidsOf doc id]
  | none => []

end PdfContent.External.PageNumbers
