import PdfContent.Document.Basic

/-!
Pages: what a page inherits from the nodes above it, and its content. The tree of pages may be
malformed: walking up meets no node twice.
-/

namespace PdfContent.Document

def node (doc : Document) (id : ObjectId) : Except ObjectFault Dictionary := do
  match ← doc.object id with
  | .dictionary d => return d
  | o => throw (o.wrongType "Dictionary")

def without (id : ObjectId) (ids : List ObjectId) : List ObjectId := ids.filter (· != id)

theorem without_length_lt {id : ObjectId} {ids : List ObjectId} (h : id ∈ ids) :
    (without id ids).length < ids.length :=
  List.length_filter_lt_length_iff_exists.2 ⟨id, h, by simp⟩

/-- The entry of a page or of the nearest node above it that has it. `fresh` holds the objects that
were not visited yet. -/
def inherited (doc : Document) (key : String) (fresh : List ObjectId) (id : ObjectId) :
    Except DocumentFault (Option PdfObject) :=
  if _ : id ∈ fresh then
    match doc.node id with
    | .error fault => .error (.pageUnreachable fault)
    | .ok d =>
      match d.entry? key, d.entry? "Parent" with
      | some value, _ => .ok (some value)
      | none, none => .ok none
      | none, some (.reference parent) => inherited doc key (without id fresh) parent
      | none, some o => .error (.parentNotReference (o.wrongType "Reference"))
  else if id ∈ doc.ids then .error (.parentCycle id)
  else .error (.pageUnreachable (.missing id))
termination_by fresh.length
decreasing_by exact without_length_lt ‹_›

def pageResources (doc : Document) (page : ObjectId) :
    Except DocumentFault (Option Dictionary) := do
  match ← doc.inherited "Resources" doc.ids page with
  | none => return none
  | some o =>
    match doc.resolve o with
    | .dictionary d => return some d
    | _ => throw .resourcesNotDictionary

def contentPart (doc : Document) (item : PdfObject) : Except DocumentFault Bytes :=
  match doc.resolve item with
  | .stream entries data => doc.streamData entries data
  | o => .error (.contentsItemNotStream (o.wrongType "Stream"))

def joinPart (content part : Bytes) : Bytes :=
  if content.isEmpty then part else content ++ Byte.space :: part

def pageContent (doc : Document) (page : Dictionary) : Except DocumentFault Bytes :=
  match doc.get? page "Contents" with
  | none => .ok []
  | some (.stream entries data) => doc.streamData entries data
  | some (.array items) => (items.mapM doc.contentPart).map fun parts => parts.foldl joinPart []
  | some _ => .error .contentsNotStream

end PdfContent.Document
