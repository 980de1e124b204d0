import PdfContent.Document.PageTree
import PdfContent.Document.StreamResources

/-!
Analyzing the streams of a document in a session: a page, a content stream with given resources, or
a form by itself. An analysis fails only when its stream cannot be reached or is no tokens.
-/

namespace PdfContent.Document

def analyze (doc : Document) (depth : Nat) (scope : Scope) (data : Bytes) (s : Session) :
    Except Failure Model × Session :=
  let result := interpret (doc.streamResources depth scope) data { session := s }
  (result.1, result.2.session)

def analyzeContent (doc : Document) (data : Bytes) (resources : Option Dictionary)
    (s : Session) : Except Failure Model × Session :=
  doc.analyze s.options.formLimit { resources } data s

def pageStream (doc : Document) (page : ObjectId) :
    Except DocumentFault (Bytes × Option Dictionary) := do
  let entries ← (doc.node page).mapError .pageUnreachable
  let content ← doc.pageContent entries
  let resources ← doc.pageResources page
  return (content, resources)

def analyzePage (doc : Document) (page : ObjectId) (s : Session) :
    Except Failure Model × Session :=
  match doc.pageStream page with
  | .error fault => (.error (.document fault), s)
  | .ok (content, resources) => doc.analyzeContent content resources s

def formStream (doc : Document) (id : ObjectId) :
    Except DocumentFault (Dictionary × Bytes) :=
  match doc.object id with
  | .ok (.stream entries data) => .ok (entries, data)
  | .ok o => .error (.formUnreachable id (o.wrongType "Stream"))
  | .error fault => .error (.formUnreachable id fault)

/-- Interprets a form's own content one level deep. A form without resources has those given. -/
def analyzeForm (doc : Document) (id : ObjectId) (resources : Option Dictionary)
    (s : Session) : Except Failure Model × Session :=
  let stream := do
    let (entries, data) ← doc.formStream id
    let data ← doc.streamData entries data
    return (entries, data)
  match stream with
  | .error fault => (.error (.document fault), s)
  | .ok (entries, data) =>
    let own := doc.dictionary? entries "Resources"
    let scope : Scope := { resources := own.or resources, openForms := [some id] }
    doc.analyze (s.options.formLimit - 1) scope data s

end PdfContent.Document
