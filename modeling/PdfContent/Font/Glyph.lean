import PdfContent.Font

/-!
Glyphs of shown strings. Every code of a string becomes one glyph with the facts that can be
decided about it; a string that does not split into codes gives none.
-/

namespace PdfContent

inductive GlyphKind
  | simple
  | cid (cid : Option Nat)
  deriving DecidableEq, Inhabited

/-- Presence and width are unknown when nothing decides them, mostly for want of a program. -/
structure Glyph where
  code : Nat
  name : Option String
  present : Option Bool
  widthConsistent : Option Bool
  text : Option String
  kind : GlyphKind
  deriving DecidableEq, Inhabited

namespace Glyph

def cid? (g : Glyph) : Option Nat :=
  match g.kind with
  | .simple => none
  | .cid c => c

end Glyph

structure ProgramCheck where
  present : Option Bool := none
  widthConsistent : Option Bool := none

namespace Font

def check (f : Font) (code : Nat) (ref : GlyphRef) : ProgramCheck :=
  match f.program with
  | none => {}
  | some program =>
    let present := program.contains ref
    { present := some present
      widthConsistent :=
        if present then
          (f.declaredWidth? code).bind fun declared =>
            (program.width? ref).map fun actual => widthsAgree declared actual
        else none }

def glyphOfCode (f : Font) (code : CharCode) : Glyph :=
  let text := f.text? code
  if f.isComposite then
    let cid := f.cid? code.code
    let result := match cid with
      | some cid => f.check code.code (.cid cid)
      | none => {}
    { code := code.code, name := none, present := result.present
      widthConsistent := result.widthConsistent, text, kind := .cid cid }
  else
    let name := f.glyphName? code.code
    let result := f.check code.code (.code code.code name text)
    { code := code.code, name, present := result.present
      widthConsistent := result.widthConsistent, text, kind := .simple }

def glyphs (f : Font) (s : Bytes) : Except FontFault (List Glyph) :=
  (f.readCodes s).map fun codes => codes.map f.glyphOfCode

end Font

end PdfContent
