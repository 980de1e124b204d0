import PdfContent.ColorSpace
import PdfContent.Operand

/-!
Inline images. Keys and filter names may be abbreviated in the stream; an image holds them in full.
Of two parameters with one key the first counts.
-/

namespace PdfContent

structure InlineImage where
  parameters : List (String × Operand)
  colorSpace : Option ColorSpace
  width : Option Int
  height : Option Int
  bitsPerComponent : Option Int
  imageMask : Bool
  filters : List String
  dataLength : Nat

namespace InlineImage

def fullKeys : List (String × String) :=
  [("BPC", "BitsPerComponent"), ("CS", "ColorSpace"), ("D", "Decode"), ("DP", "DecodeParms"),
   ("F", "Filter"), ("H", "Height"), ("IM", "ImageMask"), ("I", "Interpolate"), ("W", "Width"),
   ("L", "Length")]

def fullFilters : List (String × String) :=
  [("AHx", "ASCIIHexDecode"), ("A85", "ASCII85Decode"), ("LZW", "LZWDecode"),
   ("Fl", "FlateDecode"), ("RL", "RunLengthDecode"), ("CCF", "CCITTFaxDecode"),
   ("DCT", "DCTDecode")]

def expand (table : List (String × String)) (name : String) : String :=
  (table.lookup name).getD name

def expandKeys (entries : List (String × Operand)) : List (String × Operand) :=
  entries.map fun entry => (expand fullKeys entry.1, entry.2)

def filterNames : Option Operand → List String
  | some (.name n) => [expand fullFilters n]
  | some (.array items) => (items.filterMap Operand.name?).map (expand fullFilters)
  | _ => []

def isTrue : Option Operand → Bool
  | some (.boolean b) => b
  | _ => false

def ofParameters (parameters : List (String × Operand)) (colorSpace : Option ColorSpace)
    (dataLength : Nat) : InlineImage where
  parameters
  colorSpace
  width := (parameters.lookup "Width").bind Operand.integer?
  height := (parameters.lookup "Height").bind Operand.integer?
  bitsPerComponent := (parameters.lookup "BitsPerComponent").bind Operand.integer?
  imageMask := isTrue (parameters.lookup "ImageMask")
  filters := filterNames (parameters.lookup "Filter")
  dataLength

def parameter? (image : InlineImage) (key : String) : Option Operand := image.parameters.lookup key

end InlineImage

end PdfContent
