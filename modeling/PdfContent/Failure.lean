import PdfContent.Number.Numeral
import PdfContent.SyntaxFault

/-!
Failures: why a stream, a resource or a font could not be read at all. A failure keeps its cause;
the wording of each cause is given once, in `message`.
-/

namespace PdfContent

structure ObjectId where
  number : Nat
  generation : Nat
  deriving DecidableEq, Inhabited

namespace ObjectId

def text (id : ObjectId) : String := s!"{id.number} {id.generation}"

def reference (id : ObjectId) : String := s!"{id.text} R"

end ObjectId

inductive ObjectFault
  | missing (id : ObjectId)
  | endlessReference
  | wrongType (expected found : String)
  deriving DecidableEq, Inhabited

def ObjectFault.message : ObjectFault → String
  | missing id => s!"object ID {id.text} not found"
  | endlessReference => "dereferencing object reached limit, may indicate a reference cycle"
  | wrongType expected found =>
    s!"object has wrong type; expected type {expected} but found type {found}"

inductive DocumentFault
  | pageUnreachable (cause : ObjectFault)
  | parentCycle (id : ObjectId)
  | parentNotReference (cause : ObjectFault)
  | resourcesNotDictionary
  | contentsNotStream
  | contentsItemNotStream (cause : ObjectFault)
  | formUnreachable (id : ObjectId) (cause : ObjectFault)
  | streamUndecodable (message : String)
  | other (message : String)
  deriving DecidableEq, Inhabited

def DocumentFault.message : DocumentFault → String
  | pageUnreachable cause => s!"failed to get page dictionary: {cause.message}"
  | parentCycle id => s!"/Parent cycle in page tree at {id.reference}"
  | parentNotReference cause => s!"invalid /Parent reference: {cause.message}"
  | resourcesNotDictionary => "/Resources is not a dictionary"
  | contentsNotStream => "/Contents is not a stream or array"
  | contentsItemNotStream cause => s!"/Contents array item is not a stream: {cause.message}"
  | formUnreachable id cause =>
    s!"form XObject ({id.number}, {id.generation}): {cause.message}"
  | streamUndecodable message => s!"failed to decompress stream: {message}"
  | other message => message

/-- How a text was cut where it cannot be. Nothing is returned then: whatever is running ends. -/
inductive Crash
  | insideCharacter
  | endBeforeStart
  deriving DecidableEq, Inhabited

def Crash.message : Crash → String
  | insideCharacter => "a text is cut inside a character"
  | endBeforeStart => "a text is cut where its end stands before its start"

inductive FontFault
  | subtypeMissing
  | subtypeUnsupported (name : String)
  | predefinedUnknown (name : String)
  | encodingMissing
  | descendantMissing
  | descendantUnknown (name : String)
  | truncatedCode (length offset : Nat)
  | invalidHexCode (hex : String) (cause : NumeralFault)
  | oddHexCode (hex : String)
  | loneSurrogate
  | program (message : String)
  | crash (cause : Crash)
  | other (message : String)
  deriving DecidableEq, Inhabited

def FontFault.message : FontFault → String
  | subtypeMissing => "font dictionary without /Subtype"
  | subtypeUnsupported name => s!"unsupported font subtype /{name}"
  | predefinedUnknown name => s!"unknown predefined CMap /{name}"
  | encodingMissing => "Type0 font without /Encoding"
  | descendantMissing => "Type0 font without /DescendantFonts"
  | descendantUnknown name => s!"unknown descendant font subtype /{name}"
  | truncatedCode length offset => s!"truncated {length}-byte character code at offset {offset}"
  | invalidHexCode hex cause => s!"invalid hex code '{hex}': {cause.message}"
  | oddHexCode hex => s!"odd-length hex code '{hex}'"
  | loneSurrogate => "invalid UTF-16BE in CMap: invalid utf-16: lone surrogate found"
  | program message => s!"failed to parse TrueType program: {message}"
  | crash cause => cause.message
  | other message => message

inductive ResourceFault
  | colorSpaceTooDeep
  | colorSpaceUnknown (family : String)
  | colorSpaceNotObject
  | colorSpaceWithoutFamily
  | colorSpaceTooShort (family : String)
  | colorSpaceUnsupported (family : String)
  | profileMissing
  | componentsMissing
  | colorantMissing
  | colorantsMissing
  | shadingNotDictionary
  | shadingWithoutType
  | shadingWithoutColorSpace
  | fontNotDictionary (name : String)
  | patternNotDictionary (name : String)
  | patternTypeUnsupported (name : String) (kind : Option Int)
  | xobjectNotStream (name : String)
  | xobjectSubtypeUnsupported (name : String) (subtype : Option String)
  | extGStateNotDictionary (name : String)
  | unresolvable (name : String)
  | other (message : String)
  deriving DecidableEq, Inhabited

def entryText (value : Option String) : String :=
  match value with
  | some text => "Some(" ++ text ++ ")"
  | none => "None"

def ResourceFault.message : ResourceFault → String
  | colorSpaceTooDeep => "color space nesting too deep"
  | colorSpaceUnknown family => s!"unknown color space family /{family}"
  | colorSpaceNotObject => "color space is neither a name nor an array"
  | colorSpaceWithoutFamily => "color space array without family"
  | colorSpaceTooShort family => s!"/{family} array is too short"
  | colorSpaceUnsupported family => s!"unsupported color space family /{family}"
  | profileMissing => "/ICCBased without a profile stream"
  | componentsMissing => "/ICCBased without /N"
  | colorantMissing => "/Separation without a colorant name"
  | colorantsMissing => "/DeviceN without colorants"
  | shadingNotDictionary => "shading is not a dictionary"
  | shadingWithoutType => "shading without /ShadingType"
  | shadingWithoutColorSpace => "shading without /ColorSpace"
  | fontNotDictionary name => s!"/{name} is not a font dictionary"
  | patternNotDictionary name => s!"pattern /{name} is not a dictionary"
  | patternTypeUnsupported name kind =>
    let found := entryText (kind.map toString)
    s!"pattern /{name} has unsupported /PatternType {found}"
  | xobjectNotStream name => s!"XObject /{name} is not a stream"
  | xobjectSubtypeUnsupported name subtype =>
    let found := entryText (subtype.map Text.Quoted.string)
    s!"XObject /{name} has unsupported /Subtype {found}"
  | extGStateNotDictionary name => s!"ExtGState /{name} is not a dictionary"
  | unresolvable name => s!"/{name} cannot be resolved"
  | other message => message

inductive FailureKind
  | parse
  | io
  | font
  | interpreter
  | resource
  | other
  deriving DecidableEq, Inhabited

structure Diagnosis where
  kind : FailureKind
  text : String
  deriving DecidableEq, Inhabited

def Diagnosis.message (d : Diagnosis) : String :=
  match d.kind with
  | .parse => "parse error: " ++ d.text
  | .io => "I/O error: " ++ d.text
  | .font => "font error: " ++ d.text
  | .interpreter => "interpreter error: " ++ d.text
  | .resource => "resource error: " ++ d.text
  | .other => d.text

inductive Failure
  | document (cause : DocumentFault)
  | io (message : String)
  | font (cause : FontFault)
  | stream (cause : SyntaxFault)
  | resource (cause : ResourceFault)
  | diagnosed (diagnosis : Diagnosis)
  deriving DecidableEq, Inhabited

namespace Failure

def crash? : Failure → Option Crash
  | font (.crash cause) => some cause
  | _ => none

def diagnosis : Failure → Diagnosis
  | document cause => ⟨.parse, cause.message⟩
  | io message => ⟨.io, message⟩
  | font cause => ⟨.font, cause.message⟩
  | stream cause => ⟨.interpreter, cause.message⟩
  | resource cause => ⟨.resource, cause.message⟩
  | diagnosed d => d

def message (f : Failure) : String :=
  match f with
  | document cause => "PDF parse error: " ++ cause.message
  | _ => f.diagnosis.message

end Failure

end PdfContent
