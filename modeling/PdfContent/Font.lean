import PdfContent.Font.CMap.ToUnicode
import PdfContent.Font.CodeReader
import PdfContent.Font.Encoding
import PdfContent.Font.Program
import PdfContent.Font.Widths

/-!
Fonts as text operators see them. A simple font reads one byte a code and names its glyphs; a
composite font reads codes by its character map and numbers its glyphs by CID.
-/

namespace PdfContent

inductive SimpleFontKind
  | type1
  | mmType1
  | trueType
  | type3
  deriving DecidableEq, Inhabited

inductive CidFontKind
  | type0
  | type2
  deriving DecidableEq, Inhabited

inductive CidMapping
  | identity
  | embedded (map : CidCMap)
  | predefined (map : PredefinedCMap)

inductive FontBody
  | simple (kind : SimpleFontKind) (encoding : Option SimpleEncoding) (widths : SimpleWidths)
  | composite (mapping : CidMapping) (widths : CidWidths) (descendant : Option CidFontKind)

structure Font where
  body : FontBody
  baseFont : Option String := none
  toUnicode : Option ToUnicodeCMap := none
  program : Option FontProgram := none
  charsetText? : Charset → Bytes → Option (List Char) := fun _ _ => none

namespace SimpleFontKind

def ofName? (name : String) : Option SimpleFontKind :=
  if name == "Type1" then some type1
  else if name == "MMType1" then some mmType1
  else if name == "TrueType" then some trueType
  else if name == "Type3" then some type3
  else none

def text : SimpleFontKind → String
  | type1 => "Type1"
  | mmType1 => "MMType1"
  | trueType => "TrueType"
  | type3 => "Type3"

end SimpleFontKind

namespace CidMapping

def codeReader : CidMapping → CodeReader
  | identity => .twoByte
  | embedded m => CodeReader.ofEmbedded m
  | predefined p => CodeReader.ofPredefined p

def cid? (mapping : CidMapping) (code : Nat) : Option Nat :=
  match mapping with
  | identity => some code
  | embedded m => m.lookup code
  | predefined _ => none

def text? (mapping : CidMapping) (charsetText? : Charset → Bytes → Option (List Char))
    (code : CharCode) : Option (List Char) :=
  match mapping with
  | predefined (.utf16 _) => Text.Utf16.decode? (Bytes.words code.bytes)
  | predefined (.legacy charset _) => charsetText? charset code.bytes
  | _ => none

end CidMapping

namespace Font

def isComposite (f : Font) : Bool :=
  match f.body with
  | .simple .. => false
  | .composite .. => true

def subtype (f : Font) : String :=
  match f.body with
  | .simple kind _ _ => kind.text
  | .composite .. => "Type0"

def codeReader (f : Font) : CodeReader :=
  match f.body with
  | .simple .. => .singleByte
  | .composite mapping _ _ => mapping.codeReader

def readCodes (f : Font) (s : Bytes) : Except FontFault (List CharCode) := f.codeReader.readCodes s

def glyphName? (f : Font) (code : Nat) : Option String :=
  match f.body with
  | .simple _ encoding _ => encoding.bind fun e => e.glyphName? code
  | .composite .. => none

def cid? (f : Font) (code : Nat) : Option Nat :=
  match f.body with
  | .simple .. => none
  | .composite mapping _ _ => mapping.cid? code

def declaredWidth? (f : Font) (code : Nat) : Option Float :=
  match f.body with
  | .simple _ _ widths => widths.declared? code
  | .composite mapping widths _ => (mapping.cid? code).map widths.width

def encodedText? (f : Font) (code : CharCode) : Option String :=
  match f.body with
  | .simple .. => (f.glyphName? code.code).bind GlyphName.toText?
  | .composite mapping _ _ => (mapping.text? f.charsetText? code).map String.ofList

def text? (f : Font) (code : CharCode) : Option String :=
  (f.toUnicode.bind fun m => m.lookup code.code).or (f.encodedText? code)

end Font

end PdfContent
