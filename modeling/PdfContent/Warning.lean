/-!
Warnings: problems inside a content stream that reading it survived.
-/

namespace PdfContent

inductive WarningCode
  | resourceNotFound
  | malformedOperand
  | unsupportedOperator
  | glyphDecode
  | strayToken
  | other (detail : String)
  deriving DecidableEq, Inhabited

def WarningCode.tag : WarningCode → String
  | resourceNotFound => "RESOURCE_NOT_FOUND"
  | malformedOperand => "MALFORMED_OPERAND"
  | unsupportedOperator => "UNSUPPORTED_OPERATOR"
  | glyphDecode => "GLYPH_DECODE"
  | strayToken => "STRAY_TOKEN"
  | other _ => "OTHER"

structure Site where
  index : Nat
  operator : String
  deriving DecidableEq, Inhabited

structure Warning where
  code : WarningCode
  description : String
  site : Option Site := none
  deriving DecidableEq, Inhabited

def Warning.message (w : Warning) : String :=
  let text := s!"[{w.code.tag}] {w.description}"
  match w.site with
  | some site => s!"{text} [operator {site.operator}] [#{site.index}]"
  | none => text

end PdfContent
