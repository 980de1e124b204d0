import PdfContent.External.Charsets
import PdfContent.External.File
import PdfContent.External.Filters
import PdfContent.External.PageNumbers
import PdfContent.External.Sfnt

/-!
What stands in for the libraries that a document is read with, when the program runs. Nothing that
is stated about documents rests on it.
-/

namespace PdfContent.External

def decoders : Decoders where
  stream entries data := (Filters.decode entries data).mapError Filters.Fault.message
  charset := Charsets.decode?
  face data := (Sfnt.read data).mapError Sfnt.Fault.message

/-- A document with its pages numbered and with decoders. -/
def supplied (doc : Document) : Document := { doc with pages := PageNumbers.pages doc, decoders }

end PdfContent.External
