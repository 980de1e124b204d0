import PdfContent.Node
import PdfContent.Operation
import PdfContent.Resolving

/-!
Interpreting operators one at a time. An operation reads its operands, looks up the resources they
name and acts on the graphics state. Nothing that is missing or malformed stops a stream: it is
noted, and the operator becomes a node without it.
-/

namespace PdfContent

structure Context where
  stack : StateStack := {}
  compatibilityDepth : Nat := 0
  /-- The parameters of an inline image between its `ID` and its `EI`. -/
  pendingImage : Option (List (String × Operand)) := none

namespace Context

def live (c : Context) : GraphicsState := c.stack.live

def mapLive (c : Context) (f : GraphicsState → GraphicsState) : Context :=
  { c with stack := c.stack.mapLive f }

end Context

structure Effect where
  kind : NodeKind
  context : Context

namespace Interpreter

open Resolving

variable {σ : Type}

def nameOperand (operands : List Operand) : Resolving σ (Option String) :=
  match operands.head?.bind Operand.name? with
  | some name => return some name
  | none => do
    malformed "expected a name operand"
    return none

def deviceSpace (r : Resources σ) (family : DeviceFamily) : Resolving σ ColorSpace := do
  match ← ask (r.defaultColorSpace family) with
  | .ok (some space) => return space
  | .ok none => return family.colorSpace
  | .error failure =>
    let name := family.defaultName
    let cause := failure.message
    note .resourceNotFound s!"/{name} could not be resolved: {cause}"
    return family.colorSpace

def fullFamily? (name : String) : Option DeviceFamily :=
  if name == "DeviceGray" then some .gray
  else if name == "DeviceRGB" then some .rgb
  else if name == "DeviceCMYK" then some .cmyk
  else none

/-- A space by its family or resource name; gray when nothing is found. -/
def namedColorSpace (r : Resources σ) (operands : List Operand) : Resolving σ ColorSpace := do
  match ← nameOperand operands with
  | none => return .deviceGray
  | some name =>
    match fullFamily? name with
    | some family => deviceSpace r family
    | none =>
      if name == "Pattern" then return .pattern none
      else return (← lookup "color space" r.colorSpace name).getD .deviceGray

/-- Under a pattern space the last operand names a pattern. Without a name nothing is selected;
a name that is not found selects none. -/
def selectPattern (r : Resources σ) (side : Side) (operands : List Operand)
    (gs : GraphicsState) : Resolving σ GraphicsState :=
  if (gs.paint side).colorSpace.isPattern then
    match operands.getLast?.bind Operand.name? with
    | none => do
      malformed "pattern color without a pattern name"
      return gs
    | some name => return gs.selectPattern side (← lookup "pattern" r.pattern name)
  else return gs

def dashPattern (operands : List Operand) : Resolving σ (Option DashPattern) :=
  let array := (operands.head?.bind Operand.items?).bind fun items => items.mapM Operand.number?
  match array, operands[1]?.bind Operand.number? with
  | some array, some phase => return some ⟨array, phase⟩
  | _, _ => do
    malformed "expected [array] phase"
    return none

def matrix (operands : List Operand) : Resolving σ Matrix :=
  match operands.mapM Operand.number? with
  | some [a, b, c, d, e, f] => return ⟨a, b, c, d, e, f⟩
  | _ => do
    malformed "expected six numbers, using identity"
    return .identity

def extGState (r : Resources σ) (operands : List Operand) (c : Context) : Resolving σ Effect := do
  match ← nameOperand operands with
  | none => return ⟨.extGState none none, c⟩
  | some name =>
    match ← lookup "ExtGState" r.extGState name with
    | none => return ⟨.extGState (some name) none, c⟩
    | some ext => return ⟨.extGState (some name) (some ext), c.mapLive fun gs => gs.overlay ext⟩

def renderingMode (operands : List Operand) : Resolving σ RenderingMode :=
  match (operands.head?.bind Operand.integer?).bind RenderingMode.ofInt? with
  | some mode => return mode
  | none => do
    malformed "invalid rendering mode, using Fill"
    return .fill

/-- A font is selected by name even when the name is not found. -/
def textFont (r : Resources σ) (operands : List Operand) (c : Context) : Resolving σ Effect :=
  match operands.head?.bind Operand.name?, operands[1]?.bind Operand.number? with
  | some name, some size => do
    let font ← lookup "font" r.font name
    return ⟨.textFont (some name) size font, c.mapLive fun gs => gs.selectFont ⟨name, size⟩⟩
  | _, _ => do
    malformed "expected /Font size"
    return ⟨.textFont none c.live.fontSize none, c⟩

def shownStrings? (operands : List Operand) : ShownOperand → Option (List Bytes)
  | .first => (operands.head?.bind Operand.bytes?).map fun s => [s]
  | .last => (operands.getLast?.bind Operand.bytes?).map fun s => [s]
  | .array => (operands.head?.bind Operand.items?).map fun items => items.filterMap Operand.bytes?

def shownStrings (operands : List Operand) (shown : ShownOperand) : Resolving σ (List Bytes) :=
  match shownStrings? operands shown with
  | some strings => return strings
  | none => do
    malformed "text-show operator without a string"
    return []

/-- The font that the state selects, looked up anew for every text operator. -/
def selectedFont (r : Resources σ) (gs : GraphicsState) : Resolving σ (Option Font) :=
  match gs.fontName with
  | some name => lookup "font" r.font name
  | none => do
    note .resourceNotFound "text shown before any Tf"
    return none

/-- The greatest index of an indexed space in an inline image; what has no 32 bits is zero. -/
def highestIndex (operand : Option Operand) : Nat :=
  ((operand.bind Operand.integer?).bind Numeral.unsigned32?).getD 0

def isIndexedName (operand : Option Operand) : Bool :=
  match operand.bind Operand.name? with
  | some name => name == "I" || name == "Indexed"
  | none => false

def inlineNamedSpace (r : Resources σ) (name : String) : Resolving σ (Option ColorSpace) :=
  match ColorSpace.ofFamilyName? name with
  | some space =>
    match space.deviceFamily? with
    | some family => return some (← deviceSpace r family)
    | none => return some space
  | none => lookup "color space" r.colorSpace name

def inlineColorSpace (r : Resources σ) : Operand → Resolving σ (Option ColorSpace)
  | .name name => inlineNamedSpace r name
  | .array (family :: base :: rest) =>
    if isIndexedName (some family) then do
      match ← inlineColorSpace r base with
      | some base => return some (.indexed base (highestIndex rest.head?))
      | none => return none
    else do
      malformed "unsupported inline image color space array"
      return none
  | .array items =>
    if isIndexedName items.head? then return none
    else do
      malformed "unsupported inline image color space array"
      return none
  | _ => return none

def inlineImage (r : Resources σ) (operands : List Operand) (c : Context) :
    Resolving σ InlineImage := do
  let parameters := InlineImage.expandKeys (c.pendingImage.getD [])
  let space ←
    match parameters.lookup "ColorSpace" with
    | some operand => inlineColorSpace r operand
    | none => pure none
  let dataLength := ((operands.head?.bind Operand.bytes?).map List.length).getD 0
  return .ofParameters parameters space dataLength

def takesSnapshot : Operation → Bool
  | .deviceColor .. => true
  | .colorSpace _ => true
  | .color _ => true
  | .colorOrPattern _ => true
  | .textShow _ => true
  | .endImage => true
  | .pathPaint _ => true
  | .shading => true
  | .xobject => true
  | _ => false

def perform (r : Resources σ) (name : String) (operands : List Operand) (c : Context) :
    Operation → Resolving σ Effect
  | .generalState => return ⟨.generalState, c⟩
  | .dashPattern => return ⟨.dashPattern (← dashPattern operands), c⟩
  | .extGState => extGState r operands c
  | .save =>
    let stack := c.stack.save
    return ⟨.saveState stack.depth, { c with stack }⟩
  | .restore =>
    let stack := c.stack.restore
    return ⟨.restoreState stack.depth, { c with stack }⟩
  | .transform => return ⟨.transform (← matrix operands), c⟩
  | .markedContent => return ⟨.markedContent (operands.head?.bind Operand.name?), c⟩
  | .endMarkedContent => return ⟨.markedContent none, c⟩
  | .clip => return ⟨.clip, c⟩
  | .deviceColor side family => do
    let space ← deviceSpace r family
    return ⟨.color side, c.mapLive fun gs => gs.selectColorSpace side space⟩
  | .colorSpace side => do
    let space ← namedColorSpace r operands
    return ⟨.color side, c.mapLive fun gs => gs.selectColorSpace side space⟩
  | .color side => return ⟨.color side, c⟩
  | .colorOrPattern side => do
    let gs ← selectPattern r side operands c.live
    return ⟨.color side, c.mapLive fun _ => gs⟩
  | .textObject => return ⟨.textObject, c⟩
  | .textPosition => return ⟨.textPosition, c⟩
  | .textState => return ⟨.textState, c⟩
  | .renderingMode => do
    let mode ← renderingMode operands
    return ⟨.textState, c.mapLive fun gs => { gs with renderingMode := mode }⟩
  | .textFont => textFont r operands c
  | .textShow shown => do
    let strings ← shownStrings operands shown
    let font ← selectedFont r c.live
    return ⟨.textShow font strings, c⟩
  | .type3Glyph => return ⟨.type3Glyph, c⟩
  | .beginImage => return ⟨.inlineImage none, { c with pendingImage := none }⟩
  | .imageData =>
    let entries := (operands.head?.bind Operand.entries?).getD []
    return ⟨.inlineImage none, { c with pendingImage := some entries }⟩
  | .endImage => do
    let image ← inlineImage r operands c
    return ⟨.inlineImage (some image), { c with pendingImage := none }⟩
  | .beginCompatibility =>
    return ⟨.compatibility, { c with compatibilityDepth := c.compatibilityDepth + 1 }⟩
  | .endCompatibility =>
    return ⟨.compatibility, { c with compatibilityDepth := c.compatibilityDepth - 1 }⟩
  | .pathConstruction => return ⟨.pathConstruction, c⟩
  | .pathPaint _ => return ⟨.pathPaint, c⟩
  | .shading => do
    match ← nameOperand operands with
    | some name => return ⟨.shading (← lookup "shading" r.shading name), c⟩
    | none => return ⟨.shading none, c⟩
  | .xobject => do
    let found ← nameOperand operands
    let xobject ←
      match found with
      | some name => lookup "XObject" r.xobject name
      | none => pure none
    return ⟨.xobject found xobject, c.mapLive fun gs => { gs with xobject }⟩
  | .unknown => do
    if c.compatibilityDepth == 0 then
      note .unsupportedOperator s!"unknown operator '{name}' passed through"
    return ⟨.generic, c⟩

end Interpreter

structure Interpreter where
  context : Context := {}
  index : Nat := 0
  collectsWarnings : Bool := true
  warnings : Array Warning := #[]

namespace Interpreter

variable {σ : Type}

def state (i : Interpreter) : GraphicsState := i.context.live

def depth (i : Interpreter) : Nat := i.context.stack.depth

def step (r : Resources σ) (i : Interpreter) (name : String) (operands : List Operand)
    (memory : σ) : (Node × Interpreter) × σ :=
  let operation := Operation.ofName name
  let outcome := perform r name operands i.context operation memory
  let context := outcome.value.context
  let node : Node := {
    index := i.index
    name, operands
    kind := outcome.value.kind
    state := if takesSnapshot operation then some context.live else none }
  let site : Site := ⟨i.index, name⟩
  let warnings :=
    if i.collectsWarnings then i.warnings ++ outcome.issues.map (Issue.at · site) else i.warnings
  ((node, { i with context, warnings, index := i.index + 1 }), outcome.memory)

def skipStray (i : Interpreter) (text : String) : Interpreter :=
  if i.collectsWarnings then
    { i with warnings := i.warnings.push ⟨.strayToken, s!"stray token '{text}' skipped", none⟩ }
  else i

def takeWarnings (i : Interpreter) : List Warning × Interpreter :=
  (i.warnings.toList, { i with warnings := #[] })

end Interpreter

end PdfContent
