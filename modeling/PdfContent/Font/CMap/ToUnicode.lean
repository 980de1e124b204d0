import PdfContent.Font.CMap.Entry
import PdfContent.Text.Utf8
import Std.Data.TreeMap

/-!
Maps from character codes to text. Entries for single codes come first and entries for ranges
second, each in the order they are written; a later entry replaces an earlier one.
-/

namespace PdfContent

structure ToUnicodeCMap where
  texts : Std.TreeMap Nat String := ∅

namespace ToUnicodeCMap

inductive Entry
  | single (code : Nat) (text : List Char)
  | increasing (low span : Nat) (text : List Char)
  | listed (low : Nat) (texts : List (List Char))

def readSingle (line : List Char) : Except FontFault (Option Entry) :=
  match CMap.hexTokens line with
  | source :: target :: _ => do
    let code ← CMap.hexCode source
    let text ← CMap.destination target
    return some (.single code text)
  | _ => return none

/-- A range with one destination for each code, in brackets. The array ends at the last closing
bracket of the line, and cannot be cut out where that stands before the opening one. Destinations
beyond the range are not read. -/
def readListed (before body : List Char) : Except FontFault (Option Entry) :=
  match CMap.hexTokens before, Text.beforeLast? ']' body with
  | low :: high :: _, some inner => do
    let low ← CMap.hexCode low
    let high ← CMap.hexCode high
    let texts ← ((CMap.hexTokens inner).take (high + 1 - low)).mapM CMap.destination
    return some (.listed low texts)
  | low :: high :: _, none =>
    if ']' ∈ before then do
      let _ ← CMap.hexCode low
      let _ ← CMap.hexCode high
      throw (.crash .endBeforeStart)
    else return none
  | _, _ => return none

/-- A range with one destination, which counts up. A range that cannot be used is left out before
its destination is read. -/
def readIncreasing (line : List Char) : Except FontFault (Option Entry) :=
  match CMap.hexTokens line with
  | low :: high :: target :: _ => do
    let low ← CMap.hexCode low
    let high ← CMap.hexCode high
    match CMap.span? low high with
    | none => return none
    | some span =>
      let text ← CMap.destination target
      return some (.increasing low span text)
  | _ => return none

def readRange (line : List Char) : Except FontFault (Option Entry) :=
  match Text.cut? ['['] line with
  | some (before, body) => readListed before body
  | none => readIncreasing line

def insert (m : ToUnicodeCMap) (code : Nat) (text : List Char) : ToUnicodeCMap :=
  { m with texts := m.texts.insert code (String.ofList text) }

/-- A text with its last character moved on by an offset, if that is a character. -/
def advance? (text : List Char) (offset : Nat) : Option (List Char) :=
  match text.getLast? with
  | none => none
  | some c =>
    if (c.toNat + offset).isValidChar then
      some (text.dropLast ++ [Char.ofNat (c.toNat + offset)])
    else none

def insertAdvanced (low : Nat) (text : List Char) (m : ToUnicodeCMap) (offset : Nat) :
    ToUnicodeCMap :=
  match advance? text offset with
  | some text => m.insert (low + offset) text
  | none => m

def apply (m : ToUnicodeCMap) : Entry → ToUnicodeCMap
  | .single code text => m.insert code text
  | .increasing low span text => (List.range (span + 1)).foldl (insertAdvanced low text) m
  | .listed low texts => (texts.zipIdx low).foldl (fun m entry => m.insert entry.2 entry.1) m

def entries (text : List Char) : Except FontFault (List Entry) := do
  let singles ← (CMap.entryLines "bfchar" text).mapM readSingle
  let ranges ← (CMap.entryLines "bfrange" text).mapM readRange
  return (singles ++ ranges).filterMap id

def parse (data : Bytes) : Except FontFault ToUnicodeCMap :=
  (entries (Text.Utf8.decode data)).map fun list => list.foldl apply {}

def lookup (m : ToUnicodeCMap) (code : Nat) : Option String := m.texts[code]?

def size (m : ToUnicodeCMap) : Nat := m.texts.size

end ToUnicodeCMap

end PdfContent
