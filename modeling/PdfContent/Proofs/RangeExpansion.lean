import PdfContent.Document.Fonts

/-!
Ranges written out key by key, in words of 32 bits. A sum is either looked at before it is used, and
ends the range when it has more bits, or it has to fit, and is a fault of its own when it does not.
Each mapping is noted where it is written, so that what an entry did is known even when it fails.
-/

namespace PdfContent

namespace Word

def sum? (a b : UInt32) : Option UInt32 :=
  if a.toNat + b.toNat < UInt32.size then some (a + b) else none

def ofIndex? (i : Nat) : Option UInt32 :=
  if i < UInt32.size then some i.toUInt32 else none

def reach? (low high : UInt32) : Option UInt32 :=
  if low ≤ high then if high - low ≤ 0xFFFF then some (high - low) else none else none

def scalar? (a : UInt32) : Option Char :=
  if a.toNat.isValidChar then some (Char.ofNat a.toNat) else none

end Word

inductive Expansion.Stop
  | fault (cause : FontFault)
  | overflow

/-- An expansion with its outcome and the mappings it has written, the first one first. -/
structure Expansion (ω α : Type) where
  outcome : Except Expansion.Stop α
  writes : List (UInt32 × ω)

namespace Expansion

variable {ω α β : Type}

protected def pure (a : α) : Expansion ω α := ⟨.ok a, []⟩

protected def bind (x : Expansion ω α) (f : α → Expansion ω β) : Expansion ω β :=
  match x.outcome with
  | .ok a => ⟨(f a).outcome, x.writes ++ (f a).writes⟩
  | .error stop => ⟨.error stop, x.writes⟩

instance : Monad (Expansion ω) where
  pure := Expansion.pure
  bind := Expansion.bind

def read (x : Except FontFault α) : Expansion ω α := ⟨x.mapError .fault, []⟩

def add (a b : UInt32) : Expansion ω UInt32 :=
  match Word.sum? a b with
  | some sum => pure sum
  | none => ⟨.error .overflow, []⟩

def write (key : UInt32) (value : ω) : Expansion ω Unit := ⟨.ok (), [(key, value)]⟩

/-- The turns of a loop from a value on: as many as are left, and one more. The body says whether to
go on. -/
def turns (body : UInt32 → Expansion ω Bool) : Nat → UInt32 → Expansion ω Unit
  | 0, value => do
    let _ ← body value
  | left + 1, value => do
    if ← body value then turns body left (← add value 1)

def eachUpTo (first last : UInt32) (body : UInt32 → Expansion ω Bool) : Expansion ω Unit :=
  if first ≤ last then turns body (last.toNat - first.toNat) first else pure ()

end Expansion

open Expansion

def CMap.hexWord (hex : List Char) : Except FontFault UInt32 :=
  (CMap.hexCode hex).map Nat.toUInt32

namespace ToUnicodeCMap

def expandListed (low high : UInt32) : Nat → List (List Char) → Expansion (List Char) Unit
  | _, [] => pure ()
  | i, target :: targets =>
    match (Word.ofIndex? i).bind (Word.sum? low) with
    | none => pure ()
    | some code =>
      if code > high then pure ()
      else do
        write code (← read (CMap.destination target))
        expandListed low high (i + 1) targets

def writeAdvanced (low : UInt32) (text : List Char) (last : Char) (offset : UInt32) :
    Expansion (List Char) Bool := do
  match (Word.sum? last.val offset).bind Word.scalar? with
  | some c => write (← add low offset) (text.dropLast ++ [c])
  | none => pure ()
  return true

def expandIncreasing (low high : UInt32) (target : List Char) : Expansion (List Char) Unit :=
  match Word.reach? low high with
  | none => pure ()
  | some span => do
    let text ← read (CMap.destination target)
    match text.getLast? with
    | none => return
    | some last => eachUpTo 0 span (writeAdvanced low text last)

def expandSingle (line : List Char) : Expansion (List Char) Unit :=
  match CMap.hexTokens line with
  | source :: target :: _ => do
    let code ← read (CMap.hexWord source)
    write code (← read (CMap.destination target))
  | _ => pure ()

def expandRange (line : List Char) : Expansion (List Char) Unit :=
  match Text.cut? ['['] line with
  | some (before, body) =>
    match CMap.hexTokens before, Text.beforeLast? ']' body with
    | low :: high :: _, some inner => do
      let low ← read (CMap.hexWord low)
      let high ← read (CMap.hexWord high)
      expandListed low high 0 (CMap.hexTokens inner)
    | low :: high :: _, none =>
      if ']' ∈ before then do
        let _ ← read (CMap.hexWord low)
        let _ ← read (CMap.hexWord high)
        read (.error (.crash .endBeforeStart))
      else pure ()
    | _, _ => pure ()
  | none =>
    match CMap.hexTokens line with
    | low :: high :: target :: _ => do
      let low ← read (CMap.hexWord low)
      let high ← read (CMap.hexWord high)
      expandIncreasing low high target
    | _ => pure ()

def expand (text : List Char) : Expansion (List Char) Unit := do
  (CMap.entryLines "bfchar" text).forM expandSingle
  (CMap.entryLines "bfrange" text).forM expandRange

end ToUnicodeCMap

namespace CidCMap

def expandIncreasing (low high start : UInt32) : Expansion UInt32 Unit :=
  match Word.reach? low high with
  | none => pure ()
  | some span =>
    eachUpTo 0 span fun offset => do
      match Word.sum? start offset with
      | some cid =>
        write (← add low offset) cid
        return true
      | none => return false

def expandSingle (line : List Char) : Expansion UInt32 Unit :=
  match CMap.hexTokens line, CMap.trailingNumber? line with
  | source :: _, some cid => do
    let code ← read (CMap.hexWord source)
    write code cid.toUInt32
  | _, _ => pure ()

def expandRange (line : List Char) : Expansion UInt32 Unit :=
  match CMap.hexTokens line, CMap.trailingNumber? line with
  | low :: high :: _, some start => do
    let low ← read (CMap.hexWord low)
    let high ← read (CMap.hexWord high)
    expandIncreasing low high start.toUInt32
  | _, _ => pure ()

def expand (text : List Char) : Expansion UInt32 (List CodespaceRange) := do
  let codespaces ← read ((CMap.entryLines "codespacerange" text).mapM fun line =>
    pairRanges (CMap.hexTokens line))
  (CMap.entryLines "cidchar" text).forM expandSingle
  (CMap.entryLines "cidrange" text).forM expandRange
  return codespaces.flatten

end CidCMap

namespace Document

def expandListed (first : UInt32) : Nat → List (Option Float) → Expansion Float Unit
  | _, [] => pure ()
  | i, width :: widths =>
    match (Word.ofIndex? i).bind (Word.sum? first) with
    | none => pure ()
    | some cid => do
      match width with
      | some width => write cid width
      | none => pure ()
      expandListed first (i + 1) widths

def expandShared (first last : UInt32) (width : Float) : Expansion Float Unit :=
  match Word.reach? first last with
  | none => pure ()
  | some _ =>
    eachUpTo first last fun cid => do
      write cid width
      return true

def expandWidths (doc : Document) : List PdfObject → Expansion Float Unit
  | [] => pure ()
  | [_] => pure ()
  | first :: next :: rest =>
    match (doc.resolve first).number? with
    | none => expandWidths doc (next :: rest)
    | some first =>
      match doc.resolve next with
      | .array items => do
        expandListed first.toUInt32 0 (items.map fun o => (doc.resolve o).number?)
        expandWidths doc rest
      | next =>
        match next.number? with
        | none => expandWidths doc rest
        | some last => do
          match (rest.head?.map doc.resolve).bind PdfObject.number? with
          | some width => expandShared first.toUInt32 last.toUInt32 width
          | none => pure ()
          expandWidths doc rest.tail
termination_by items => items.length
decreasing_by all_goals (simp only [List.length_cons, List.length_tail]; omega)

end Document

end PdfContent
