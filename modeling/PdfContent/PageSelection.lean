import PdfContent.Number.Numeral
import PdfContent.Text.Blank
import PdfContent.Text.Search

/-!
Page selections such as `1,3-5`: between commas stand pages and ranges of pages, counted from one. A
selection denotes a set of pages, so its pages come out in order and each once.
-/

namespace PdfContent

inductive PageSelectionFault
  | notANumber (text : String)
  | zero
  | beyondEnd (page count : Nat)
  | descending (part : String)
  | nothingSelected (text : String)
  deriving DecidableEq, Inhabited

def PageSelectionFault.message : PageSelectionFault → String
  | notANumber text => s!"invalid page number: '{text}'"
  | zero => "page 0 is invalid (pages start at 1)"
  | beyondEnd page count => s!"page {page} exceeds document page count ({count})"
  | descending part => s!"descending page range: '{part}'"
  | nothingSelected text => s!"no pages selected by '{text}'"

structure PageRange where
  first : Nat
  last : Nat
  deriving DecidableEq, Inhabited

namespace PageSelection

def readPage (count : Nat) (text : List Char) : Except PageSelectionFault Nat :=
  let digits := Text.trimChars text
  match Numeral.parse? 10 Numeral.greatest64 digits with
  | none => .error (.notANumber (String.ofList digits))
  | some page =>
    if page == 0 then .error .zero
    else if page > count then .error (.beyondEnd page count)
    else .ok page

def readPart (count : Nat) (part : List Char) : Except PageSelectionFault PageRange :=
  match Text.cut? ['-'] part with
  | none => (readPage count part).map fun page => ⟨page, page⟩
  | some (first, last) => do
    let first ← readPage count first
    let last ← readPage count last
    if first > last then throw (.descending (String.ofList part))
    return ⟨first, last⟩

def parts (text : String) : List (List Char) :=
  ((Text.pieces ',' text.toList).map Text.trimChars).filter fun part => !part.isEmpty

def indicesFrom (next : Nat) : List PageRange → List Nat
  | [] => []
  | r :: rest =>
    let start := max next (r.first - 1)
    List.range' start (r.last - start) ++ indicesFrom (max next r.last) rest

/-- The indices, counted from zero, of the pages that a selection denotes. -/
def parse (text : String) (count : Nat) : Except PageSelectionFault (List Nat) := do
  let ranges ← (parts text).mapM (readPart count)
  if ranges.isEmpty then throw (.nothingSelected text)
  return indicesFrom 0 (ranges.mergeSort fun a b => a.first ≤ b.first)

end PageSelection

end PdfContent
