import PdfContent.Text.Blank

/-!
PDF/A flavours: the archival profile a document is meant to follow, a part with a conformance
level. Only the combinations that the standards define are flavours.
-/

namespace PdfContent

inductive Conformance
  | a
  | b
  | u
  | e
  | f
  | none
  deriving DecidableEq, Inhabited

namespace Conformance

def letter : Conformance → String
  | a => "A"
  | b => "B"
  | u => "U"
  | e => "E"
  | f => "F"
  | none => ""

def ofSuffix? (suffix : List Char) : Option Conformance :=
  match suffix with
  | [] => some .none
  | ['a'] => some a
  | ['b'] => some b
  | ['u'] => some u
  | ['e'] => some e
  | ['f'] => some f
  | _ => Option.none

def ofPart (part : Nat) : List Conformance :=
  match part with
  | 1 => [a, b]
  | 2 => [a, b, u]
  | 3 => [a, b, u]
  | 4 => [.none, e, f]
  | _ => []

end Conformance

structure Flavour where
  part : Nat
  conformance : Conformance
  deriving DecidableEq, Inhabited

structure UnknownFlavour where
  text : String
  deriving DecidableEq, Inhabited

def UnknownFlavour.message (e : UnknownFlavour) : String := s!"unknown PDF/A flavour: '{e.text}'"

namespace Flavour

def make? (part : Nat) (conformance : Conformance) : Option Flavour :=
  if conformance ∈ Conformance.ofPart part then some ⟨part, conformance⟩ else none

def prefixes : List (List Char) := ["pdf/a-".toList, "pdfa-".toList, "pdfa".toList]

def dropPrefix (text : List Char) : List Char :=
  match prefixes.find? fun p => p.isPrefixOf text with
  | some p => text.drop p.length
  | none => text

def ofBody? : List Char → Option Flavour
  | [] => none
  | digit :: suffix =>
    if '0' ≤ digit && digit ≤ '9' then
      (Conformance.ofSuffix? suffix).bind fun c => make? (digit.toNat - '0'.toNat) c
    else none

def parse (s : String) : Except UnknownFlavour Flavour :=
  match ofBody? (dropPrefix ((Text.trimChars s.toList).map Char.toLower)) with
  | some flavour => .ok flavour
  | none => .error ⟨s⟩

def text (f : Flavour) : String := s!"PDF/A-{f.part}{f.conformance.letter}"

end Flavour

end PdfContent
