import PdfContent.Document.ColorSpaces
import PdfContent.Document.ExtGStates
import PdfContent.Document.Fonts
import PdfContent.Model
import PdfContent.Session

/-!
Resources of a stream in a document. Painting a form interprets the form's own stream, which may
paint further forms: forms are followed to a limited depth, and a form that is already open is not
entered again. What was loaded for an indirect object is kept in the session. The facts of a form
are kept only when the form has resources of its own and nothing below it met the depth limit. A
stream is not read on once a font in it, or in a form it paints, has come down while it was read.
-/

namespace PdfContent.Document

structure Memory where
  session : Session
  /-- Whether the form being interpreted, or one below it, met the depth limit. -/
  truncated : Bool := false
  /-- Why reading came down. -/
  crash : Option Crash := none

/-- Where a stream stands: its resource dictionary and the forms open around it, innermost first.
A form that is no indirect object has no number. -/
structure Scope where
  resources : Option Dictionary := none
  openForms : List (Option ObjectId) := []

namespace Memory

variable {α : Type}

def loadSpace (load : SpaceLoading α) (m : Memory) : Except Failure α × Memory :=
  let result := load.run m.session.separations
  (result.1.mapError .resource, { m with session := { m.session with separations := result.2 } })

def found (result : Except Failure α × Memory) : Found α × Memory :=
  (result.1.map some, result.2)

def goes (m : Memory) : Bool := m.crash.isNone

def noting (result : Except Failure α × Memory) : Except Failure α × Memory :=
  match result.1 with
  | .ok _ => result
  | .error failure =>
    (result.1, { result.2 with crash := result.2.crash.or failure.crash? })

end Memory

namespace Scope

def entry? (doc : Document) (scope : Scope) (category name : String) :
    Option (Option ObjectId × PdfObject) := do
  let resources ← scope.resources
  let entries ← doc.dictionary? resources category
  let entry ← entries.entry? name
  return (entry.reference?, doc.resolve entry)

def builtIn? (name : String) : Option ColorSpace :=
  if name ∈ ["DeviceGray", "DeviceRGB", "DeviceCMYK", "Pattern"] then
    ColorSpace.ofFamilyName? name
  else none

def loadKeptSpace (doc : Document) (id : Option ObjectId) (o : PdfObject) (m : Memory) :
    Except Failure ColorSpace × Memory :=
  match id with
  | none => m.loadSpace (doc.loadColorSpace o)
  | some id =>
    match m.session.colorSpaces.get? id with
    | some space => (.ok space, m)
    | none =>
      match m.loadSpace (doc.loadColorSpace o) with
      | (.error e, m) => (.error e, m)
      | (.ok space, m) =>
        let kept := m.session.colorSpaces.getOrInsert id space
        (.ok kept.1, { m with session := { m.session with colorSpaces := kept.2 } })

def colorSpace (doc : Document) (scope : Scope) : Lookup Memory ColorSpace := fun name m =>
  match scope.entry? doc "ColorSpace" name with
  | some (id, o) => Memory.found (loadKeptSpace doc id o m)
  | none => (.ok (builtIn? name), m)

def referenceOf? (name : String) : Option ObjectId :=
  match Text.words name with
  | [number, generation, ['R']] => do
    let number ← Numeral.parse? 10 Numeral.greatest32 number
    let generation ← Numeral.parse? 10 Numeral.greatest16 generation
    return ⟨number, generation⟩
  | _ => none

/-- A font by resource name, or by reference where no resource has the name. -/
def fontEntry? (doc : Document) (scope : Scope) (name : String) :
    Option (Option ObjectId × PdfObject) :=
  match scope.entry? doc "Font" name with
  | some found => some found
  | none => (referenceOf? name).bind fun id => (doc.object id).toOption.map fun o => (some id, o)

def loadKeptFont (doc : Document) (id : Option ObjectId) (d : Dictionary) (m : Memory) :
    Except Failure Font × Memory :=
  match id with
  | none => (doc.readFont d, m)
  | some id =>
    match m.session.fonts.get? id with
    | some font => (.ok font, m)
    | none =>
      match doc.readFont d with
      | .error e => (.error e, m)
      | .ok font =>
        let kept := m.session.fonts.getOrInsert id font
        (.ok kept.1, { m with session := { m.session with fonts := kept.2 } })

def font (doc : Document) (scope : Scope) : Lookup Memory Font := fun name m =>
  match scope.fontEntry? doc name with
  | none => (.ok none, m)
  | some (id, o) =>
    match o.dictionary? with
    | none => (.error (.resource (.fontNotDictionary name)), m)
    | some d => Memory.found (Memory.noting (loadKeptFont doc id d m))

def pattern (doc : Document) (scope : Scope) : Lookup Memory Pattern := fun name m =>
  match scope.entry? doc "Pattern" name with
  | none => (.ok none, m)
  | some (_, o) => Memory.found (m.loadSpace (doc.loadPattern name o))

def shading (doc : Document) (scope : Scope) : Lookup Memory Shading := fun name m =>
  match scope.entry? doc "Shading" name with
  | none => (.ok none, m)
  | some (_, o) => Memory.found (m.loadSpace (doc.loadShading o))

def extGState (doc : Document) (scope : Scope) : Lookup Memory ExtGState := fun name m =>
  match scope.entry? doc "ExtGState" name with
  | none => (.ok none, m)
  | some (_, o) =>
    match o.dictionary? with
    | none => (.error (.resource (.extGStateNotDictionary name)), m)
    | some d => (.ok (some (doc.readExtGState d)), m)

end Scope

def imageSpace (doc : Document) (d : Dictionary) : SpaceLoading (Option ColorSpace) :=
  match doc.get? d "ColorSpace" with
  | some o => ifUsable (doc.loadColorSpace o)
  | none => return none

def readImage (doc : Document) (d : Dictionary) : SpaceLoading ImageXObject := do
  let colorSpace ← doc.imageSpace d
  return {
    width := (doc.size? d "Width").getD 0
    height := (doc.size? d "Height").getD 0
    bitsPerComponent := doc.size? d "BitsPerComponent"
    colorSpace
    hasSoftMask := d.has "SMask"
    softMaskInData := (doc.integer? d "SMaskInData").getD 0
    isImageMask := (doc.boolean? d "ImageMask").getD false
    filters := doc.filterNames d }

def isTransparencyGroup (doc : Document) (form : Dictionary) : Bool :=
  ((doc.dictionary? form "Group").bind fun group => doc.name? group "S") == some "Transparency"

/-- Interprets a stream; it fails only when its bytes are no tokens, or when reading comes down. -/
def interpret (r : Resources Memory) (data : Bytes) (m : Memory) :
    Except Failure Model × Memory :=
  match Token.ofBytes data with
  | .error fault => (.error (.stream fault), m)
  | .ok tokens =>
    let result :=
      Model.ofTokensWhile Memory.goes r m.session.options.collectsWarnings tokens m
    match result.2.crash with
    | some cause => (.error (.font (.crash cause)), result.2)
    | none => (.ok result.1, result.2)

/-- The resources that a form's own stream is interpreted with; none at the depth limit. -/
abbrev Nested := Option (Scope → Resources Memory)

def formTransparency (doc : Document) (nested : Nested) (scope : Scope) (form : Dictionary)
    (data : Bytes) (m : Memory) : Except Failure Bool × Memory :=
  match nested with
  | none => (.ok false, { m with truncated := true })
  | some resources =>
    match doc.streamData form data with
    | .error fault => (.error (.document fault), m)
    | .ok data =>
      let result := interpret (resources scope) data m
      (result.1.map Model.containsTransparency, result.2)

def enterForm (doc : Document) (nested : Nested) (scope : Scope) (id : Option ObjectId)
    (form : Dictionary) (data : Bytes) (m : Memory) : Except Failure FormXObject × Memory :=
  let own := doc.dictionary? form "Resources"
  let inner : Scope := { resources := own.or scope.resources, openForms := id :: scope.openForms }
  match doc.formTransparency nested inner form data { m with truncated := false } with
  | (.error e, after) => (.error e, { after with truncated := m.truncated })
  | (.ok contentTransparency, after) =>
    let facts : FormXObject :=
      { transparencyGroup := doc.isTransparencyGroup form, contentTransparency }
    let session := after.session
    let truncated := m.truncated || after.truncated
    match id with
    | some id =>
      if own.isSome && !after.truncated then
        let kept := session.forms.getOrInsert id facts
        (.ok kept.1, { after with session := { session with forms := kept.2 }, truncated })
      else (.ok facts, { after with truncated })
    | none => (.ok facts, { after with truncated })

/-- The facts of a form: as they are kept; else, for a form that is open already, without its
content, which is being looked at; else by looking into it. -/
def readForm (doc : Document) (nested : Nested) (scope : Scope) (id : Option ObjectId)
    (form : Dictionary) (data : Bytes) (m : Memory) : Except Failure FormXObject × Memory :=
  match id.bind fun id => m.session.forms.get? id with
  | some facts => (.ok facts, m)
  | none =>
    if id.isSome && scope.openForms.contains id then
      (.ok { transparencyGroup := doc.isTransparencyGroup form, contentTransparency := false }, m)
    else enterForm doc nested scope id form data m

def readXObject (doc : Document) (nested : Nested) (scope : Scope) (name : String)
    (id : Option ObjectId) (entries : Dictionary) (data : Bytes) (m : Memory) :
    Except Failure XObject × Memory :=
  match doc.name? entries "Subtype" with
  | some "Image" =>
    let result := m.loadSpace (doc.readImage entries)
    (result.1.map .image, result.2)
  | some "Form" =>
    let result := doc.readForm nested scope id entries data m
    (result.1.map .form, result.2)
  | some "PS" => (.ok .postScript, m)
  | subtype => (.error (.resource (.xobjectSubtypeUnsupported name subtype)), m)

def Scope.xobject (doc : Document) (nested : Nested) (scope : Scope) : Lookup Memory XObject :=
  fun name m =>
    match scope.entry? doc "XObject" name with
    | none => (.ok none, m)
    | some (id, .stream entries data) =>
      Memory.found (doc.readXObject nested scope name id entries data m)
    | some _ => (.error (.resource (.xobjectNotStream name)), m)

def Scope.resourcesWith (doc : Document) (nested : Nested) (scope : Scope) :
    Resources Memory where
  colorSpace := scope.colorSpace doc
  font := scope.font doc
  pattern := scope.pattern doc
  shading := scope.shading doc
  xobject := scope.xobject doc nested
  extGState := scope.extGState doc

/-- The resources of a stream below which forms are followed `depth` levels deep. -/
def streamResources (doc : Document) : Nat → Scope → Resources Memory
  | 0, scope => scope.resourcesWith doc none
  | depth + 1, scope => scope.resourcesWith doc (some (streamResources doc depth))

end PdfContent.Document
