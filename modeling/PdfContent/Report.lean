import PdfContent.Json
import PdfContent.Model
import PdfContent.Text.Quoted

/-!
Reports on content streams: short labels, table rows of seven columns separated by tabs, and JSON
values. What a row cannot tell is a dash.
-/

namespace PdfContent

/-- A short label of a space. A pattern that is selected stands for its space. -/
def ColorSpace.label (space : ColorSpace) (pattern : Option String) : String :=
  match space, pattern with
  | .pattern _, some name => s!"Pattern({name})"
  | .separation colorant _, _ => s!"Separation({colorant})"
  | .indexed base _, _ =>
    let family := base.family
    s!"Indexed({family})"
  | space, _ => space.family

def Paint.label (p : Paint) : String := p.colorSpace.label (p.pattern.map Pattern.name)

def Font.label (f : Font) : String :=
  let name := f.baseFont.getD "?"
  s!"{name} ({f.subtype})"

def Glyph.textOf (glyphs : List Glyph) : String :=
  String.join (glyphs.map fun g => g.text.getD (String.singleton Text.Utf8.replacement))

def Glyph.summary (glyphs : List Glyph) : String :=
  let missing := glyphs.countP fun g => g.present == some false
  let inconsistent := glyphs.countP fun g => g.widthConsistent == some false
  let text := Text.Quoted.string (Glyph.textOf glyphs)
  s!"count={glyphs.length} missing={missing} inconsistent={inconsistent} text={text}"

def dash : String := "-"

namespace Node

def fontLabel? (n : Node) : Option String := n.font?.map Font.label

def fillLabel? (n : Node) : Option String := n.state.map fun s => s.fill.label

def strokeLabel? (n : Node) : Option String := n.state.map fun s => s.stroke.label

def glyphSummary? (n : Node) : Option String :=
  if n.isTextShow then some (Glyph.summary n.glyphs) else none

def columns (n : Node) (page index : Nat) : List String :=
  [toString page, toString index, n.name, n.fillLabel?.getD dash, n.strokeLabel?.getD dash,
   n.fontLabel?.getD dash, n.glyphSummary?.getD dash]

def row (n : Node) (page index : Nat) : String := "\t".intercalate (n.columns page index)

end Node

def columnTitles : String :=
  "\t".intercalate ["page", "index", "operator", "fill", "stroke", "font", "glyphs"]

def WarningCode.json : WarningCode → Json
  | resourceNotFound => .object [("type", .string "ResourceNotFound")]
  | malformedOperand => .object [("type", .string "MalformedOperand")]
  | unsupportedOperator => .object [("type", .string "UnsupportedOperator")]
  | glyphDecode => .object [("type", .string "GlyphDecode")]
  | strayToken => .object [("type", .string "StrayToken")]
  | other detail => .object [("type", .string "Other"), ("detail", .string detail)]

def Warning.json (w : Warning) : Json :=
  .object [
    ("code", w.code.json),
    ("description", .string w.description),
    ("operator_index", .ofOption (fun site => .ofNat site.index) w.site),
    ("operator", .ofOption (fun site => .string site.operator) w.site)]

def GlyphKind.json : GlyphKind → Json
  | simple => .string "Simple"
  | cid c => .object [("Cid", .object [("cid", .ofOption .ofNat c)])]

def Glyph.json (g : Glyph) : Json :=
  .object [
    ("code", .ofNat g.code),
    ("name", .ofOption .string g.name),
    ("present", .ofOption .boolean g.present),
    ("width_consistent", .ofOption .boolean g.widthConsistent),
    ("to_unicode", .ofOption .string g.text),
    ("kind", g.kind.json)]

def Node.json (n : Node) (index : Nat) : Json :=
  .object [
    ("index", .ofNat index),
    ("operator", .string n.name),
    ("operands", .ofNat n.operands.length),
    ("fill", .ofOption .string n.fillLabel?),
    ("stroke", .ofOption .string n.strokeLabel?),
    ("font", .ofOption .string n.fontLabel?),
    ("glyphs", if n.isTextShow then .ofList Glyph.json n.glyphs else .null)]

end PdfContent
