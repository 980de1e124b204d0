import PdfContent.Font.Program
import PdfContent.Font.Widths

/-!
Faces of TrueType and OpenType programs. What a face can be asked is given; here stands how the
character of a font finds its glyph with it.
-/

namespace PdfContent

structure CharacterMap where
  platform : Nat
  encoding : Nat
  glyph? : Nat → Option Nat

/-- A face as a library that reads font files answers for it. -/
structure Face where
  unitsPerEm : Nat
  glyphCount : Nat
  maps : List CharacterMap
  glyphNamed? : String → Option Nat
  glyphOf? : Char → Option Nat
  advance? : Nat → Option Nat

namespace Face

/-- The glyph that the maps of one platform and encoding give to the first character they know.
Glyph zero stands for none. -/
def findGlyph? (face : Face) (platform encoding : Nat) (chars : List Nat) : Option Nat :=
  (face.maps.filter fun m => m.platform == platform && m.encoding == encoding).findSome? fun m =>
    chars.findSome? fun char => (m.glyph? char).filter (· != 0)

/-- Codes of a symbol font may stand in one of three private pages. -/
def symbolPages (code : Nat) : List Nat :=
  [code, 0xF000 ||| code, 0xF100 ||| code, 0xF200 ||| code]

def glyphOfCode? (face : Face) (code : Nat) : Option Nat :=
  (face.findGlyph? 3 0 (symbolPages code)).or (face.findGlyph? 1 0 [code])

/-- A code finds its glyph by itself, else by name, else by the first character of its text. -/
def glyph? (face : Face) (cidToGid : CidToGid) : GlyphRef → Option Nat
  | .cid cid =>
    let glyph := cidToGid.glyph cid
    if glyph < face.glyphCount then some glyph else none
  | .code code name unicode =>
    let byName := name.bind face.glyphNamed?
    let byText := (unicode.bind fun text => text.toList.head?).bind face.glyphOf?
    (((face.glyphOfCode? code).or byName).or byText).filter (· != 0)

def width? (face : Face) (glyph : Nat) : Option Float :=
  if face.unitsPerEm = 0 then none
  else
    (face.advance? glyph).map fun advance =>
      Float.ofNat advance * 1000.0 / Float.ofNat face.unitsPerEm

def program (face : Face) (cidToGid : CidToGid) : FontProgram where
  contains ref := (face.glyph? cidToGid ref).isSome
  width? ref := (face.glyph? cidToGid ref).bind face.width?

def text (face : Face) : String :=
  "TrueTypeProgram \x7b " ++ s!"glyphs: {face.glyphCount}, units_per_em: {face.unitsPerEm}" ++
    " \x7d"

end Face

end PdfContent
