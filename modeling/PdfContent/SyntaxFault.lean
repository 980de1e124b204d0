import PdfContent.Bytes
import PdfContent.Text.Quoted

/-!
What can be wrong with the bytes of a content stream. Only an operand or an inline image that
never ends, or that holds a byte it cannot hold, is a fault; other stray bytes are tokens.
-/

namespace PdfContent

inductive SyntaxFault
  | unclosedString
  | badHexDigit (byte : UInt8)
  | unclosedHex
  | unclosedArray
  | unclosedDictionary
  | keyExpected
  | unexpectedByte (byte : UInt8)
  | unexpectedEnd
  | imageWithoutData
  | imageKeyExpected
  | imageWithoutEnd
  | other (message : String)
  deriving DecidableEq, Inhabited

def hexByte (b : UInt8) : String :=
  let digits := (Nat.toDigits 16 b.toNat).map Char.toUpper
  String.ofList (List.replicate (2 - digits.length) '0' ++ digits)

def SyntaxFault.message : SyntaxFault → String
  | unclosedString => "unterminated literal string"
  | badHexDigit b => "invalid hex digit: " ++ Text.Quoted.char (Byte.toChar b)
  | unclosedHex => "unterminated hex string"
  | unclosedArray => "unterminated array"
  | unclosedDictionary => "unterminated dictionary"
  | keyExpected => "expected name key in dictionary"
  | unexpectedByte b => "unexpected byte 0x" ++ hexByte b ++ " in operand"
  | unexpectedEnd => "unexpected end of content stream"
  | imageWithoutData => "unterminated inline image (missing ID)"
  | imageKeyExpected => "expected name key in inline image dictionary"
  | imageWithoutEnd => "unterminated inline image (missing EI)"
  | other message => message

end PdfContent
