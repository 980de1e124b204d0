/-!
Graphics state parameter dictionaries: what the `gs` operator may set at once.
-/

namespace PdfContent

inductive BlendMode
  | name (mode : String)
  | array (modes : List String)
  deriving DecidableEq, Inhabited

def BlendMode.isNormal : BlendMode → Bool
  | name mode => mode == "Normal"
  | array modes => modes == ["Normal"]

structure SoftMask where
  subtype : String
  hasGroup : Bool
  deriving DecidableEq, Inhabited

structure DashPattern where
  array : List Float
  phase : Float
  deriving Inhabited

structure FontSelection where
  name : String
  size : Float
  deriving Inhabited

structure ExtGState where
  font : Option FontSelection := none
  blendMode : Option BlendMode := none
  softMask : Option SoftMask := none
  softMaskCleared : Bool := false
  strokeAlpha : Option Float := none
  fillAlpha : Option Float := none
  lineWidth : Option Float := none
  dashPattern : Option DashPattern := none
  hasTransferFunction : Bool := false
  hasHalftone : Bool := false
  deriving Inhabited

end PdfContent
