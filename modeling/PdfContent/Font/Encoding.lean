import PdfContent.Font.GlyphName
import Std.Data.TreeMap

/-!
Encodings of simple fonts: which glyph name a code has. A base encoding names most codes, and
differences rename single ones.
-/

namespace PdfContent

inductive BaseEncoding
  | standard
  | winAnsi
  | macRoman
  deriving DecidableEq, Inhabited

namespace BaseEncoding

def ofName? (name : String) : Option BaseEncoding :=
  if name == "StandardEncoding" then some standard
  else if name == "WinAnsiEncoding" then some winAnsi
  else if name == "MacRomanEncoding" then some macRoman
  else none

def standardUpper : List (Nat × String) :=
  [(0xA1, "exclamdown"), (0xA2, "cent"), (0xA3, "sterling"), (0xA4, "fraction"), (0xA5, "yen"),
   (0xA6, "florin"), (0xA7, "section"), (0xA8, "currency"), (0xA9, "quotesingle"),
   (0xAA, "quotedblleft"), (0xAB, "guillemotleft"), (0xAC, "guilsinglleft"),
   (0xAD, "guilsinglright"), (0xAE, "fi"), (0xAF, "fl"), (0xB1, "endash"), (0xB2, "dagger"),
   (0xB3, "daggerdbl"), (0xB4, "periodcentered"), (0xB6, "paragraph"), (0xB7, "bullet"),
   (0xB8, "quotesinglbase"), (0xB9, "quotedblbase"), (0xBA, "quotedblright"),
   (0xBB, "guillemotright"), (0xBC, "ellipsis"), (0xBD, "perthousand"), (0xBF, "questiondown"),
   (0xC1, "grave"), (0xC2, "acute"), (0xC3, "circumflex"), (0xC4, "tilde"), (0xC5, "macron"),
   (0xC6, "breve"), (0xC7, "dotaccent"), (0xC8, "dieresis"), (0xCA, "ring"), (0xCB, "cedilla"),
   (0xCD, "hungarumlaut"), (0xCE, "ogonek"), (0xCF, "caron"), (0xD0, "emdash"), (0xE1, "AE"),
   (0xE3, "ordfeminine"), (0xE8, "Lslash"), (0xE9, "Oslash"), (0xEA, "OE"),
   (0xEB, "ordmasculine"), (0xF1, "ae"), (0xF5, "dotlessi"), (0xF8, "lslash"), (0xF9, "oslash"),
   (0xFA, "oe"), (0xFB, "germandbls")]

def winAnsiUpper : List (Nat × String) :=
  [(0x80, "Euro"), (0x82, "quotesinglbase"), (0x83, "florin"), (0x84, "quotedblbase"),
   (0x85, "ellipsis"), (0x86, "dagger"), (0x87, "daggerdbl"), (0x88, "circumflex"),
   (0x89, "perthousand"), (0x8A, "Scaron"), (0x8B, "guilsinglleft"), (0x8C, "OE"),
   (0x8E, "Zcaron"), (0x91, "quoteleft"), (0x92, "quoteright"), (0x93, "quotedblleft"),
   (0x94, "quotedblright"), (0x95, "bullet"), (0x96, "endash"), (0x97, "emdash"),
   (0x98, "tilde"), (0x99, "trademark"), (0x9A, "scaron"), (0x9B, "guilsinglright"),
   (0x9C, "oe"), (0x9E, "zcaron"), (0x9F, "Ydieresis"), (0xA0, "space")]

def macRomanUpper : List (Nat × String) :=
  [(0x80, "Adieresis"), (0x81, "Aring"), (0x82, "Ccedilla"), (0x83, "Eacute"), (0x84, "Ntilde"),
   (0x85, "Odieresis"), (0x86, "Udieresis"), (0x87, "aacute"), (0x88, "agrave"),
   (0x89, "acircumflex"), (0x8A, "adieresis"), (0x8B, "atilde"), (0x8C, "aring"),
   (0x8D, "ccedilla"), (0x8E, "eacute"), (0x8F, "egrave"), (0x90, "ecircumflex"),
   (0x91, "edieresis"), (0x92, "iacute"), (0x93, "igrave"), (0x94, "icircumflex"),
   (0x95, "idieresis"), (0x96, "ntilde"), (0x97, "oacute"), (0x98, "ograve"),
   (0x99, "ocircumflex"), (0x9A, "odieresis"), (0x9B, "otilde"), (0x9C, "uacute"),
   (0x9D, "ugrave"), (0x9E, "ucircumflex"), (0x9F, "udieresis"), (0xA0, "dagger"),
   (0xA1, "degree"), (0xA2, "cent"), (0xA3, "sterling"), (0xA4, "section"), (0xA5, "bullet"),
   (0xA6, "paragraph"), (0xA7, "germandbls"), (0xA8, "registered"), (0xA9, "copyright"),
   (0xAA, "trademark"), (0xAB, "acute"), (0xAC, "dieresis"), (0xAE, "AE"), (0xAF, "Oslash"),
   (0xB1, "plusminus"), (0xB4, "yen"), (0xB5, "mu"), (0xBB, "ordfeminine"),
   (0xBC, "ordmasculine"), (0xBE, "ae"), (0xBF, "oslash"), (0xC0, "questiondown"),
   (0xC1, "exclamdown"), (0xC2, "logicalnot"), (0xC4, "florin"), (0xC7, "guillemotleft"),
   (0xC8, "guillemotright"), (0xC9, "ellipsis"), (0xCA, "space"), (0xCB, "Agrave"),
   (0xCC, "Atilde"), (0xCD, "Otilde"), (0xCE, "OE"), (0xCF, "oe"), (0xD0, "endash"),
   (0xD1, "emdash"), (0xD2, "quotedblleft"), (0xD3, "quotedblright"), (0xD4, "quoteleft"),
   (0xD5, "quoteright"), (0xD6, "divide"), (0xD8, "ydieresis"), (0xD9, "Ydieresis"),
   (0xDA, "fraction"), (0xDB, "currency"), (0xDC, "guilsinglleft"), (0xDD, "guilsinglright"),
   (0xDE, "fi"), (0xDF, "fl"), (0xE0, "daggerdbl"), (0xE1, "periodcentered"),
   (0xE2, "quotesinglbase"), (0xE3, "quotedblbase"), (0xE4, "perthousand"),
   (0xE5, "Acircumflex"), (0xE6, "Ecircumflex"), (0xE7, "Aacute"), (0xE8, "Edieresis"),
   (0xE9, "Egrave"), (0xEA, "Iacute"), (0xEB, "Icircumflex"), (0xEC, "Idieresis"),
   (0xED, "Igrave"), (0xEE, "Oacute"), (0xEF, "Ocircumflex"), (0xF1, "Ograve"), (0xF2, "Uacute"),
   (0xF3, "Ucircumflex"), (0xF4, "Ugrave"), (0xF5, "dotlessi"), (0xF6, "circumflex"),
   (0xF7, "tilde"), (0xF8, "macron"), (0xF9, "breve"), (0xFA, "dotaccent"), (0xFB, "ring"),
   (0xFC, "cedilla"), (0xFD, "hungarumlaut"), (0xFE, "ogonek"), (0xFF, "caron")]

def upper : BaseEncoding → List (Nat × String)
  | standard => standardUpper
  | winAnsi => winAnsiUpper ++ (List.range' 0xA1 GlyphName.latin.length).zip GlyphName.latin
  | macRoman => macRomanUpper

def quotes : BaseEncoding → List (Nat × String)
  | standard => [(0x27, "quoteright"), (0x60, "quoteleft")]
  | _ => []

def glyphName? (encoding : BaseEncoding) (code : Nat) : Option String :=
  if 0x20 ≤ code && code ≤ 0x7E then
    (encoding.quotes.lookup code).or GlyphName.ascii[code - 0x20]?
  else encoding.upper.lookup code

end BaseEncoding

structure SimpleEncoding where
  base : Option BaseEncoding := none
  differences : Std.TreeMap Nat String := ∅

structure DifferenceRun where
  start : Nat
  names : List String
  deriving Inhabited

namespace SimpleEncoding

/-- A code takes the last name that it is given; codes beyond a byte are dropped. -/
def rename (encoding : SimpleEncoding) (code : Nat) (name : String) : SimpleEncoding :=
  if code < 256 then { encoding with differences := encoding.differences.insert code name }
  else encoding

def applyRun (encoding : SimpleEncoding) (run : DifferenceRun) : SimpleEncoding :=
  (run.names.zipIdx run.start).foldl (fun e entry => e.rename entry.2 entry.1) encoding

def applyRuns (encoding : SimpleEncoding) (runs : List DifferenceRun) : SimpleEncoding :=
  runs.foldl applyRun encoding

def glyphName? (encoding : SimpleEncoding) (code : Nat) : Option String :=
  if code < 256 then
    encoding.differences[code]?.or (encoding.base.bind fun base => base.glyphName? code)
  else none

end SimpleEncoding

end PdfContent
