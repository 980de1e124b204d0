import PdfContent.ColorSpace

/-!
External objects, reduced to the facts that painting them depends on.
-/

namespace PdfContent

structure FormXObject where
  transparencyGroup : Bool
  contentTransparency : Bool
  deriving BEq, Inhabited

structure ImageXObject where
  width : Nat
  height : Nat
  bitsPerComponent : Option Nat
  colorSpace : Option ColorSpace
  hasSoftMask : Bool
  softMaskInData : Int
  isImageMask : Bool
  filters : List String
  deriving BEq, Inhabited

inductive XObject
  | form (form : FormXObject)
  | image (image : ImageXObject)
  | postScript
  deriving BEq, Inhabited

namespace FormXObject

def isTransparent (f : FormXObject) : Bool := f.transparencyGroup || f.contentTransparency

end FormXObject

namespace ImageXObject

def isTransparent (i : ImageXObject) : Bool := i.hasSoftMask || i.softMaskInData > 0

end ImageXObject

namespace XObject

def isTransparent : XObject → Bool
  | form f => f.isTransparent
  | image i => i.isTransparent
  | postScript => false

def subtype : XObject → String
  | form _ => "Form"
  | image _ => "Image"
  | postScript => "PS"

end XObject

end PdfContent
