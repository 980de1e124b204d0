import PdfContent.ExtGState
import PdfContent.Pattern
import PdfContent.XObject

/-!
The graphics state of a content stream and its save stack. Filling and stroking have a paint each;
the rest of the state is shared. A state is a value, so one that was handed out never changes.
-/

namespace PdfContent

inductive RenderingMode
  | fill
  | stroke
  | fillStroke
  | invisible
  | fillClip
  | strokeClip
  | fillStrokeClip
  | clip
  deriving DecidableEq, Inhabited

def RenderingMode.ofInt? (i : Int) : Option RenderingMode :=
  match i with
  | 0 => some fill
  | 1 => some stroke
  | 2 => some fillStroke
  | 3 => some invisible
  | 4 => some fillClip
  | 5 => some strokeClip
  | 6 => some fillStrokeClip
  | 7 => some clip
  | _ => none

inductive Side
  | fill
  | stroke
  deriving DecidableEq, Inhabited

structure Paint where
  colorSpace : ColorSpace := .deviceGray
  pattern : Option Pattern := none
  alpha : Float := 1.0
  deriving BEq, Inhabited

structure GraphicsState where
  fill : Paint := {}
  stroke : Paint := {}
  renderingMode : RenderingMode := .fill
  fontName : Option String := none
  fontSize : Float := 0.0
  blendMode : Option BlendMode := none
  softMask : Option SoftMask := none
  xobject : Option XObject := none
  deriving BEq, Inhabited

namespace GraphicsState

def paint (gs : GraphicsState) : Side → Paint
  | .fill => gs.fill
  | .stroke => gs.stroke

def setPaint (gs : GraphicsState) (side : Side) (paint : Paint) : GraphicsState :=
  match side with
  | .fill => { gs with fill := paint }
  | .stroke => { gs with stroke := paint }

def selectColorSpace (gs : GraphicsState) (side : Side) (space : ColorSpace) : GraphicsState :=
  gs.setPaint side { gs.paint side with colorSpace := space, pattern := none }

def selectPattern (gs : GraphicsState) (side : Side) (pattern : Option Pattern) :
    GraphicsState :=
  gs.setPaint side { gs.paint side with pattern }

def selectFont (gs : GraphicsState) (font : FontSelection) : GraphicsState :=
  { gs with fontName := some font.name, fontSize := font.size }

def overlayFont (gs : GraphicsState) (ext : ExtGState) : GraphicsState :=
  match ext.font with
  | some font => gs.selectFont font
  | none => gs

def maskAfter (current : Option SoftMask) (ext : ExtGState) : Option SoftMask :=
  match ext.softMask with
  | some mask => some mask
  | none => if ext.softMaskCleared then none else current

def overlayTransparency (gs : GraphicsState) (ext : ExtGState) : GraphicsState :=
  { gs with
    blendMode := ext.blendMode <|> gs.blendMode
    softMask := maskAfter gs.softMask ext
    fill := { gs.fill with alpha := ext.fillAlpha.getD gs.fill.alpha }
    stroke := { gs.stroke with alpha := ext.strokeAlpha.getD gs.stroke.alpha } }

def overlay (gs : GraphicsState) (ext : ExtGState) : GraphicsState :=
  (gs.overlayFont ext).overlayTransparency ext

end GraphicsState

/-- The live state above the states that `q` saved, newest first. -/
structure StateStack where
  live : GraphicsState := {}
  saved : List GraphicsState := []
  deriving Inhabited

namespace StateStack

def depth (s : StateStack) : Nat := s.saved.length

def save (s : StateStack) : StateStack := { s with saved := s.live :: s.saved }

def restore (s : StateStack) : StateStack :=
  match s.saved with
  | [] => s
  | state :: rest => { live := state, saved := rest }

def mapLive (f : GraphicsState → GraphicsState) (s : StateStack) : StateStack :=
  { s with live := f s.live }

end StateStack

end PdfContent
