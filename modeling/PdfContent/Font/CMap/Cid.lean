import PdfContent.Font.CMap.Entry
import PdfContent.Text.Utf8
import Std.Data.TreeMap

/-!
Maps from character codes to the character identifiers (CIDs) of a composite font, with the
codespace that tells how many bytes a code has.
-/

namespace PdfContent

/-- Codes whose every byte lies between the bytes of two bounds. -/
structure CodespaceRange where
  low : Bytes
  high : Bytes
  deriving DecidableEq, Inhabited

namespace CodespaceRange

def byteLength (r : CodespaceRange) : Nat := r.low.length

def covers (r : CodespaceRange) (bytes : Bytes) : Bool :=
  r.low.length ≤ bytes.length &&
    ((r.low.zip r.high).zip bytes).all fun entry =>
      entry.1.1 ≤ entry.2 && entry.2 ≤ entry.1.2

def coversFirst (r : CodespaceRange) (first : UInt8) : Bool :=
  match r.low, r.high with
  | low :: _, high :: _ => low ≤ first && first ≤ high
  | _, _ => false

end CodespaceRange

structure CidCMap where
  cids : Std.TreeMap Nat Nat := ∅
  codespaces : List CodespaceRange := []
  name : Option String := none
  writingMode : Nat := 0
  parent : Option String := none

namespace CidCMap

inductive Entry
  | single (code cid : Nat)
  | range (low span start : Nat)

def pairRanges : List (List Char) → Except FontFault (List CodespaceRange)
  | low :: high :: rest => do
    let low ← CMap.hexBytes low
    let high ← CMap.hexBytes high
    let ranges ← pairRanges rest
    if low.length == high.length && !low.isEmpty then return ⟨low, high⟩ :: ranges
    else return ranges
  | _ => return []

def readSingle (line : List Char) : Except FontFault (Option Entry) :=
  match CMap.hexTokens line, CMap.trailingNumber? line with
  | source :: _, some cid => do
    let code ← CMap.hexCode source
    return some (.single code cid)
  | _, _ => return none

def readRange (line : List Char) : Except FontFault (Option Entry) :=
  match CMap.hexTokens line, CMap.trailingNumber? line with
  | low :: high :: _, some start => do
    let low ← CMap.hexCode low
    let high ← CMap.hexCode high
    return (CMap.span? low high).map fun span => .range low span start
  | _, _ => return none

def insert (m : CidCMap) (code cid : Nat) : CidCMap :=
  { m with cids := m.cids.insert code cid }

def room (start : Nat) : Nat := Numeral.greatest32 + 1 - start

def apply (m : CidCMap) : Entry → CidCMap
  | .single code cid => m.insert code cid
  | .range low span start =>
    (List.range (min (span + 1) (room start))).foldl
      (fun m offset => m.insert (low + offset) (start + offset)) m

def nameAfter? (key : String) (text : List Char) : Option String :=
  match Text.cut? key.toList text with
  | none => none
  | some (_, rest) =>
    match Text.trimStartChars rest with
    | '/' :: name => some (String.ofList (name.takeWhile fun c => !Text.isBlank c && c != '/'))
    | _ => none

def writingModeOf (text : List Char) : Nat :=
  match Text.cut? "/WMode".toList text with
  | none => 0
  | some (_, rest) => if (Text.trimStartChars rest).head? == some '1' then 1 else 0

/-- The map that this one extends: the name before the first `usecmap`. -/
def parentOf? (text : List Char) : Option String :=
  match Text.cut? "usecmap".toList text with
  | none => none
  | some (before, _) =>
    let name := Text.trimChars (Text.afterLast '/' before)
    if name.isEmpty then none else some (String.ofList name)

def parseText (text : List Char) : Except FontFault CidCMap := do
  let codespaces ←
    (CMap.entryLines "codespacerange" text).mapM fun line => pairRanges (CMap.hexTokens line)
  let singles ← (CMap.entryLines "cidchar" text).mapM readSingle
  let ranges ← (CMap.entryLines "cidrange" text).mapM readRange
  let header : CidCMap := {
    codespaces := codespaces.flatten
    name := nameAfter? "/CMapName" text
    writingMode := writingModeOf text
    parent := parentOf? text }
  return ((singles ++ ranges).filterMap id).foldl apply header

def parse (data : Bytes) : Except FontFault CidCMap := parseText (Text.Utf8.decode data)

def lookup (m : CidCMap) (code : Nat) : Option Nat := m.cids[code]?

def size (m : CidCMap) : Nat := m.cids.size

end CidCMap

end PdfContent
