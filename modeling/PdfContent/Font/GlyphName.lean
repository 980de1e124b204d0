import PdfContent.Bytes
import PdfContent.Number.Numeral
import PdfContent.Text.Utf8

/-!
Glyph names. Latin glyphs have names of their own; any other character is named by its code point,
as `uni` with groups of four digits or as `u` with four to six.
-/

namespace PdfContent.GlyphName

open Text

def ascii : List String :=
  ["space", "exclam", "quotedbl", "numbersign", "dollar", "percent", "ampersand", "quotesingle",
   "parenleft", "parenright", "asterisk", "plus", "comma", "hyphen", "period", "slash", "zero",
   "one", "two", "three", "four", "five", "six", "seven", "eight", "nine", "colon", "semicolon",
   "less", "equal", "greater", "question", "at", "A", "B", "C", "D", "E", "F", "G", "H", "I",
   "J", "K", "L", "M", "N", "O", "P", "Q", "R", "S", "T", "U", "V", "W", "X", "Y", "Z",
   "bracketleft", "backslash", "bracketright", "asciicircum", "underscore", "grave", "a", "b",
   "c", "d", "e", "f", "g", "h", "i", "j", "k", "l", "m", "n", "o", "p", "q", "r", "s", "t", "u",
   "v", "w", "x", "y", "z", "braceleft", "bar", "braceright", "asciitilde"]

def latin : List String :=
  ["exclamdown", "cent", "sterling", "currency", "yen", "brokenbar", "section", "dieresis",
   "copyright", "ordfeminine", "guillemotleft", "logicalnot", "hyphen", "registered", "macron",
   "degree", "plusminus", "twosuperior", "threesuperior", "acute", "mu", "paragraph",
   "periodcentered", "cedilla", "onesuperior", "ordmasculine", "guillemotright", "onequarter",
   "onehalf", "threequarters", "questiondown", "Agrave", "Aacute", "Acircumflex", "Atilde",
   "Adieresis", "Aring", "AE", "Ccedilla", "Egrave", "Eacute", "Ecircumflex", "Edieresis",
   "Igrave", "Iacute", "Icircumflex", "Idieresis", "Eth", "Ntilde", "Ograve", "Oacute",
   "Ocircumflex", "Otilde", "Odieresis", "multiply", "Oslash", "Ugrave", "Uacute", "Ucircumflex",
   "Udieresis", "Yacute", "Thorn", "germandbls", "agrave", "aacute", "acircumflex", "atilde",
   "adieresis", "aring", "ae", "ccedilla", "egrave", "eacute", "ecircumflex", "edieresis",
   "igrave", "iacute", "icircumflex", "idieresis", "eth", "ntilde", "ograve", "oacute",
   "ocircumflex", "otilde", "odieresis", "divide", "oslash", "ugrave", "uacute", "ucircumflex",
   "udieresis", "yacute", "thorn", "ydieresis"]

def typographic : List (String × Nat) :=
  [("quoteleft", 0x2018), ("quoteright", 0x2019), ("quotedblleft", 0x201C),
   ("quotedblright", 0x201D), ("quotesinglbase", 0x201A), ("quotedblbase", 0x201E),
   ("guilsinglleft", 0x2039), ("guilsinglright", 0x203A), ("Euro", 0x20AC), ("florin", 0x192),
   ("ellipsis", 0x2026), ("dagger", 0x2020), ("daggerdbl", 0x2021), ("circumflex", 0x2C6),
   ("perthousand", 0x2030), ("Scaron", 0x160), ("scaron", 0x161), ("OE", 0x152), ("oe", 0x153),
   ("Zcaron", 0x17D), ("zcaron", 0x17E), ("Ydieresis", 0x178), ("bullet", 0x2022),
   ("endash", 0x2013), ("emdash", 0x2014), ("tilde", 0x2DC), ("trademark", 0x2122),
   ("fraction", 0x2044), ("fi", 0xFB01), ("fl", 0xFB02), ("dotlessi", 0x131), ("Lslash", 0x141),
   ("lslash", 0x142), ("breve", 0x2D8), ("dotaccent", 0x2D9), ("ring", 0x2DA),
   ("hungarumlaut", 0x2DD), ("ogonek", 0x2DB), ("caron", 0x2C7)]

def numberedFrom (first : Nat) (names : List String) : List (String × Nat) :=
  names.zip (List.range' first names.length)

/-- The code point of every named glyph; the first entry of a name counts. -/
def table : List (String × Nat) :=
  numberedFrom 0x20 ascii ++ typographic ++ numberedFrom 0xA1 latin

def scalar? (n : Nat) : Option Char :=
  if n.isValidChar then some (Char.ofNat n) else none

def ofGroups? : List Char → Option (List Char)
  | [] => some []
  | a :: b :: c :: d :: rest => do
    let n ← Numeral.parse? 16 Numeral.greatest32 [a, b, c, d]
    let head ← scalar? n
    let tail ← ofGroups? rest
    return head :: tail
  | _ => none

def after? (start cs : List Char) : Option (List Char) :=
  if start.isPrefixOf cs then some (cs.drop start.length) else none

def baseText? (name : List Char) : Option (List Char) :=
  match table.lookup (String.ofList name) with
  | some n => some [Char.ofNat n]
  | none =>
    match (after? ['u', 'n', 'i'] name).filter fun d => 4 ≤ Utf8.size d && Utf8.size d % 4 == 0 with
    | some digits => ofGroups? digits
    | none =>
      match (after? ['u'] name).filter fun d => 4 ≤ Utf8.size d && Utf8.size d ≤ 6 with
      | some digits => do
        let n ← Numeral.parse? 16 Numeral.greatest32 digits
        let c ← scalar? n
        return [c]
      | none => none

/-- The text a glyph name stands for. A period starts a suffix, which does not count. -/
def toText? (name : String) : Option String :=
  (baseText? (name.toList.takeWhile (· != '.'))).map String.ofList

end PdfContent.GlyphName
