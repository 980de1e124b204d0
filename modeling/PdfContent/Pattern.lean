import PdfContent.ColorSpace

/-!
Shadings and patterns.
-/

namespace PdfContent

structure Shading where
  kind : Int
  colorSpace : ColorSpace
  deriving BEq, Inhabited

inductive PatternKind
  | tiling (paintType tilingType : Int)
  | shading (shading : Option Shading) (hasExtGState : Bool)
  deriving BEq, Inhabited

structure Pattern where
  name : String
  kind : PatternKind
  deriving BEq, Inhabited

namespace Pattern

def isTiling (p : Pattern) : Bool :=
  match p.kind with
  | .tiling .. => true
  | .shading .. => false

def isUncolored (p : Pattern) : Bool :=
  match p.kind with
  | .tiling paintType _ => paintType == 2
  | .shading .. => false

end Pattern

end PdfContent
