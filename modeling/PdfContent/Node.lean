import PdfContent.Font.Glyph
import PdfContent.GraphicsState
import PdfContent.InlineImage
import PdfContent.Warning

/-!
Operator nodes: what interpreting one operator gave. A node holds the operator's operands, what was
resolved for it and, where its effect depends on it, the graphics state it ran under.
-/

namespace PdfContent

structure Matrix where
  a : Float
  b : Float
  c : Float
  d : Float
  e : Float
  f : Float
  deriving Inhabited

def Matrix.identity : Matrix := ⟨1.0, 0.0, 0.0, 1.0, 0.0, 0.0⟩

inductive NodeKind
  | generalState
  | dashPattern (dash : Option DashPattern)
  | extGState (name : Option String) (ext : Option ExtGState)
  | saveState (depth : Nat)
  | restoreState (depth : Nat)
  | transform (matrix : Matrix)
  | markedContent (tag : Option String)
  | clip
  | color (side : Side)
  | textObject
  | textPosition
  | textState
  | textFont (name : Option String) (size : Float) (font : Option Font)
  | textShow (font : Option Font) (strings : List Bytes)
  | type3Glyph
  | inlineImage (image : Option InlineImage)
  | compatibility
  | pathConstruction
  | pathPaint
  | shading (shading : Option Shading)
  | xobject (name : Option String) (xobject : Option XObject)
  | generic

structure Node where
  index : Nat
  name : String
  operands : List Operand
  kind : NodeKind
  state : Option GraphicsState := none

inductive Link
  | colorSpace (space : ColorSpace)
  | pattern (pattern : Pattern)
  | font (font : Font)
  | glyph (glyph : Glyph)
  | dashPattern (dash : DashPattern)
  | extGState (ext : ExtGState)
  | shading (shading : Shading)
  | xobject (xobject : XObject)
  | inlineImage (image : InlineImage)

inductive LinkKey
  | fillColorSpace
  | strokeColorSpace
  | font
  | usedGlyphs
  | dashArray
  | extGState
  | shading
  | xobject
  | pattern
  | inlineImage
  deriving DecidableEq, Inhabited

namespace LinkKey

def all : List LinkKey :=
  [fillColorSpace, strokeColorSpace, font, usedGlyphs, dashArray, extGState, shading, xobject,
   pattern, inlineImage]

def text : LinkKey → String
  | fillColorSpace => "fillCS"
  | strokeColorSpace => "strokeCS"
  | font => "font"
  | usedGlyphs => "usedGlyphs"
  | dashArray => "dashArray"
  | extGState => "extGState"
  | shading => "shading"
  | xobject => "xobject"
  | pattern => "pattern"
  | inlineImage => "inlineImage"

end LinkKey

def Paint.link (p : Paint) : Link :=
  match p.pattern with
  | some pattern => if p.colorSpace.isPattern then .pattern pattern else .colorSpace p.colorSpace
  | none => .colorSpace p.colorSpace

namespace Node

def isTextShow (n : Node) : Bool :=
  match n.kind with
  | .textShow .. => true
  | _ => false

def font? (n : Node) : Option Font :=
  match n.kind with
  | .textFont _ _ font => font
  | .textShow font _ => font
  | _ => none

def shown (n : Node) : List (Except FontFault (List Glyph)) :=
  match n.kind with
  | .textShow (some font) strings => strings.map font.glyphs
  | _ => []

def glyphs (n : Node) : List Glyph :=
  n.shown.flatMap fun
    | .ok glyphs => glyphs
    | .error _ => []

def glyphWarning? (n : Node) : Except FontFault (List Glyph) × Nat → Option Warning
  | (.ok _, _) => none
  | (.error fault, i) =>
    let cause := (Failure.font fault).message
    some {
      code := .glyphDecode
      description := s!"string {i} could not be decoded: {cause}"
      site := some ⟨n.index, n.name⟩ }

def glyphWarnings (n : Node) : List Warning := n.shown.zipIdx.filterMap n.glyphWarning?

def patterns (n : Node) : List Pattern :=
  match n.state with
  | none => []
  | some state =>
    match n.kind with
    | .color side => (state.paint side).pattern.toList
    | _ => state.fill.pattern.toList ++ state.stroke.pattern.toList

def dashPattern? (n : Node) : Option DashPattern :=
  match n.kind with
  | .dashPattern dash => dash
  | .extGState _ ext => ext.bind ExtGState.dashPattern
  | _ => none

def extGState? (n : Node) : Option ExtGState :=
  match n.kind with
  | .extGState _ ext => ext
  | _ => none

def shading? (n : Node) : Option Shading :=
  match n.kind with
  | .shading shading => shading
  | _ => none

def xobject? (n : Node) : Option XObject :=
  match n.kind with
  | .xobject _ xobject => xobject
  | _ => none

def inlineImage? (n : Node) : Option InlineImage :=
  match n.kind with
  | .inlineImage image => image
  | _ => none

def linked (n : Node) : LinkKey → List Link
  | .fillColorSpace => n.state.toList.map fun s => s.fill.link
  | .strokeColorSpace => n.state.toList.map fun s => s.stroke.link
  | .font => n.font?.toList.map .font
  | .usedGlyphs => n.glyphs.map .glyph
  | .dashArray => n.dashPattern?.toList.map .dashPattern
  | .extGState => n.extGState?.toList.map .extGState
  | .shading => n.shading?.toList.map .shading
  | .xobject => n.xobject?.toList.map .xobject
  | .pattern => n.patterns.map .pattern
  | .inlineImage => n.inlineImage?.toList.map .inlineImage

end Node

end PdfContent
