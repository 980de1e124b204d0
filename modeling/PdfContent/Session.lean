import PdfContent.Cache
import PdfContent.Failure
import PdfContent.Flavour
import PdfContent.Font
import PdfContent.XObject

/-!
A session: options, and what was loaded from one document so far. All streams of a document that
are analyzed together share it.
-/

namespace PdfContent

structure Options where
  /-- How deep forms that paint forms are followed. -/
  formLimit : Nat := 10
  collectsWarnings : Bool := true
  flavour : Option Flavour := none
  deriving Inhabited

structure Session where
  options : Options := {}
  colorSpaces : Cache ObjectId ColorSpace := {}
  fonts : Cache ObjectId Font := {}
  forms : Cache ObjectId FormXObject := {}
  separations : Cache String ColorSpace := {}

end PdfContent
