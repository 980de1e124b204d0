import PdfContent.GraphicsState

/-!
When painting is transparent. Each painting operator has a policy, which says what facts of the
state at the time of painting make it so. Text follows its rendering mode; invisible text and text
that only clips paint nothing.
-/

namespace PdfContent

inductive TransparencyPolicy
  | neither
  | fill
  | stroke
  | fillStroke
  | fillXObject
  | fillFont
  | strokeFont
  | fillStrokeFont
  deriving DecidableEq, Inhabited

namespace GraphicsState

def blends (gs : GraphicsState) : Bool :=
  gs.softMask.isSome || gs.blendMode.any fun mode => !mode.isNormal

def isTranslucent (gs : GraphicsState) (side : Side) : Bool :=
  gs.blends || (gs.paint side).alpha < 1.0

end GraphicsState

namespace TransparencyPolicy

def holds (policy : TransparencyPolicy) (gs : GraphicsState) : Bool :=
  match policy with
  | neither => gs.blends
  | fill => gs.isTranslucent .fill
  | fillFont => gs.isTranslucent .fill
  | stroke => gs.isTranslucent .stroke
  | strokeFont => gs.isTranslucent .stroke
  | fillStroke => gs.isTranslucent .fill || gs.isTranslucent .stroke
  | fillStrokeFont => gs.isTranslucent .fill || gs.isTranslucent .stroke
  | fillXObject => gs.isTranslucent .fill || gs.xobject.any XObject.isTransparent

def ofRenderingMode? : RenderingMode → Option TransparencyPolicy
  | .fill => some fillFont
  | .fillClip => some fillFont
  | .stroke => some strokeFont
  | .strokeClip => some strokeFont
  | .fillStroke => some fillStrokeFont
  | .fillStrokeClip => some fillStrokeFont
  | .invisible => none
  | .clip => none

end TransparencyPolicy

end PdfContent
