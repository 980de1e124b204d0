/-!
Embedded font programs, as far as glyph checks ask them: whether a glyph is there and how wide it
is.
-/

namespace PdfContent

inductive GlyphRef
  | code (code : Nat) (name unicode : Option String)
  | cid (cid : Nat)
  deriving DecidableEq, Inhabited

structure FontProgram where
  contains : GlyphRef → Bool
  width? : GlyphRef → Option Float

def FontProgram.ofProcedures (names : List String) : FontProgram where
  contains
    | .code _ (some name) _ => names.contains name
    | _ => false
  width? _ := none

end PdfContent
