import PdfContent.Token

/-!
Reading with a cursor. The input stays as it is and a position moves over it: bytes are looked at
where the cursor stands, text is sliced out between two positions, and a byte or a slice beyond the
end is a fault of its own. Loops and nested operands run against a clock, so that a lexer that
stands still ends without an outcome, and every call of a routine is noted with the place where it
began and the place where it ended.
-/

namespace PdfContent.Lexer

inductive Fault
  | wrong (cause : SyntaxFault)
  | outOfRange
  deriving DecidableEq

/-- The parts of the lexer; `step` is one turn of the loop over the tokens. -/
inductive Routine
  | blank | keyword | value | literal | hex | array | dictionary | name | number | image | step
  deriving DecidableEq

structure Call where
  routine : Routine
  start : Nat
  stop : Nat
  completed : Bool
  deriving DecidableEq

structure State where
  position : Nat := 0
  calls : List Call := []

def State.move (s : State) (n : Nat) : State := { s with position := s.position + n }

/-- There is no outcome once the clock has run out. -/
def Lex (α : Type) : Type := State → Option (Except Fault α × State)

namespace Lex

variable {α β : Type}

protected def pure (a : α) : Lex α := fun s => some (.ok a, s)

protected def bind (x : Lex α) (f : α → Lex β) : Lex β := fun s =>
  match x s with
  | none => none
  | some (.ok a, t) => f a t
  | some (.error fault, t) => some (.error fault, t)

instance : Monad Lex where
  pure := Lex.pure
  bind := Lex.bind

end Lex

section

variable {α : Type}

def fail (cause : SyntaxFault) : Lex α := fun s => some (.error (.wrong cause), s)

def timeOut : Lex α := fun _ => none

def position : Lex Nat := fun s => some (.ok s.position, s)

def advance (n : Nat) : Lex Unit := fun s => some (.ok (), s.move n)

def called (routine : Routine) (x : Lex α) : Lex α := fun s =>
  (x s).map fun (result, t) =>
    (result, { t with calls := ⟨routine, s.position, t.position, result.isOk⟩ :: t.calls })

def byteAt (bytes : Bytes) (i : Nat) : Lex UInt8 := fun s =>
  match bytes[i]? with
  | some b => some (.ok b, s)
  | none => some (.error .outOfRange, s)

def byteBefore (bytes : Bytes) : Nat → Lex UInt8
  | 0 => fun s => some (.error .outOfRange, s)
  | i + 1 => byteAt bytes i

def slice (bytes : Bytes) (start stop : Nat) : Lex Bytes := fun s =>
  if start ≤ stop ∧ stop ≤ bytes.length then some (.ok ((bytes.drop start).take (stop - start)), s)
  else some (.error .outOfRange, s)

end

variable (input : Bytes)

def peekAt (ahead : Nat) : Lex (Option UInt8) := fun s => some (.ok input[s.position + ahead]?, s)

def peek : Lex (Option UInt8) := peekAt input 0

def passed (start : Nat) : Lex Bytes := do
  slice input start (← position)

def passWhile (p : UInt8 → Bool) : Nat → Lex Unit
  | 0 => timeOut
  | clock + 1 => do
    match ← peek input with
    | none => return
    | some b =>
      if p b then
        advance 1
        passWhile p clock
      else return

def passBlank : Nat → Lex Unit
  | 0 => timeOut
  | clock + 1 => do
    match ← peek input with
    | none => return
    | some b =>
      if Byte.isBlank b then
        advance 1
        passBlank clock
      else if b == Byte.percent then
        passWhile input (fun c => !Byte.isLineEnd c) (clock + 1)
        passBlank clock
      else return

def keyword (clock : Nat) : Lex Bytes := do
  let start ← position
  passWhile input Byte.isRegular clock
  passed input start

def unescape (raw : Bytes) : Nat → Nat → Bytes → Lex Bytes
  | 0, _, _ => timeOut
  | clock + 1, i, decoded =>
    if i < raw.length then do
      let b ← byteAt raw i
      if b == Byte.hash && decide (i + 2 < raw.length) then
        match Byte.hexValue (← byteAt raw (i + 1)), Byte.hexValue (← byteAt raw (i + 2)) with
        | some h, some l => unescape raw clock (i + 3) (decoded ++ [(h * 16 + l).toUInt8])
        | _, _ => unescape raw clock (i + 1) (decoded ++ [b])
      else unescape raw clock (i + 1) (decoded ++ [b])
    else return decoded

def name (clock : Nat) : Lex String := do
  advance 1
  let start ← position
  passWhile input Byte.isRegular clock
  let raw ← passed input start
  let decoded ← unescape raw clock 0 []
  return decoded.toText

def passDigits : Nat → Bool → Lex Unit
  | 0, _ => timeOut
  | clock + 1, pointed => do
    match ← peek input with
    | none => return
    | some b =>
      if b == Byte.dot && !pointed then
        advance 1
        passDigits clock true
      else if Byte.isDigit b then
        advance 1
        passDigits clock pointed
      else return

def passSign : Lex Unit := do
  match ← peek input with
  | some b => if b == Byte.plus || b == Byte.minus then advance 1 else return
  | none => return

def number (clock : Nat) : Lex Operand := do
  let start ← position
  passSign input
  passDigits input clock false
  let text ← passed input start
  return (Operand.readNumber text).1

def octal : Nat → Nat → Lex Nat
  | 0, value => return value
  | digits + 1, value => do
    match ← peek input with
    | none => return value
    | some d =>
      if Byte.isOctal d then
        advance 1
        octal digits (value * 8 + Byte.digitValue d)
      else return value

def escape (e : UInt8) : Lex Bytes := do
  if e == 0x6E then return [Byte.lineFeed]
  else if e == 0x72 then return [Byte.carriageReturn]
  else if e == 0x74 then return [Byte.tab]
  else if e == 0x62 then return [0x08]
  else if e == 0x66 then return [Byte.formFeed]
  else if e == Byte.carriageReturn then
    if (← peek input) == some Byte.lineFeed then
      advance 1
      return []
    else return []
  else if e == Byte.lineFeed then return []
  else if Byte.isOctal e then
    let value ← octal input 2 (Byte.digitValue e)
    return [value.toUInt8]
  else return [e]

def literalRest : Nat → Nat → Bytes → Lex Bytes
  | 0, _, _ => timeOut
  | clock + 1, depth, held => do
    match ← peek input with
    | none => fail .unclosedString
    | some b =>
      advance 1
      if b == Byte.openParen then literalRest clock (depth + 1) (held ++ [b])
      else if b == Byte.closeParen then
        match depth with
        | 0 => return held
        | depth + 1 => literalRest clock depth (held ++ [b])
      else if b == Byte.backslash then
        match ← peek input with
        | none => fail .unclosedString
        | some e =>
          advance 1
          let bytes ← escape input e
          literalRest clock depth (held ++ bytes)
      else literalRest clock depth (held ++ [b])

def literal (clock : Nat) : Lex Bytes := do
  advance 1
  literalRest input clock 0 []

def hexRest : Nat → Option Nat → Bytes → Lex Bytes
  | 0, _, _ => timeOut
  | clock + 1, high, held => do
    match ← peek input with
    | none => fail .unclosedHex
    | some b =>
      advance 1
      if b == Byte.greater then
        match high with
        | some h => return held ++ [(h * 16).toUInt8]
        | none => return held
      else if Byte.isBlank b then hexRest clock high held
      else
        match Byte.hexValue b, high with
        | none, _ => fail (.badHexDigit b)
        | some v, none => hexRest clock (some v) held
        | some v, some h => hexRest clock none (held ++ [(h * 16 + v).toUInt8])

def hex (clock : Nat) : Lex Bytes := do
  advance 1
  hexRest input clock none []

def skip (clock : Nat) : Lex Unit := called .blank (passBlank input clock)

mutual

def value : Nat → Lex Operand
  | 0 => timeOut
  | clock + 1 => do
    match ← peek input with
    | none => fail .unexpectedEnd
    | some b =>
      if b == Byte.openParen then return .literal (← called .literal (literal input clock))
      else if b == Byte.less then
        if (← peekAt input 1) == some Byte.less then
          called .dictionary do
            advance 2
            dictionaryRest clock []
        else return .hex (← called .hex (hex input clock))
      else if b == Byte.openBracket then
        called .array do
          advance 1
          arrayRest clock []
      else if b == Byte.slash then return .name (← called .name (name input clock))
      else if Operand.isNumberStart b then called .number (number input clock)
      else if Operand.isWordStart b then
        return Operand.ofWord (← called .keyword (keyword input clock)).toText
      else fail (.unexpectedByte b)

def arrayRest : Nat → List Operand → Lex Operand
  | 0, _ => timeOut
  | clock + 1, items => do
    skip input clock
    match ← peek input with
    | none => fail .unclosedArray
    | some b =>
      if b == Byte.closeBracket then
        advance 1
        return .array items.reverse
      else
        let item ← called .value (value clock)
        arrayRest clock (item :: items)

def dictionaryRest : Nat → List (String × Operand) → Lex Operand
  | 0, _ => timeOut
  | clock + 1, entries => do
    skip input clock
    match ← peek input with
    | none => fail .unclosedDictionary
    | some b =>
      if b == Byte.slash then
        let key ← called .name (name input clock)
        skip input clock
        let entry ← called .value (value clock)
        dictionaryRest clock ((key, entry) :: entries)
      else if b == Byte.greater && (← peekAt input 1) == some Byte.greater then
        advance 2
        return .dictionary entries.reverse
      else fail .keyExpected

end

def atDataMark : Lex Bool := do
  let first ← peek input
  let second ← peekAt input 1
  let third ← peekAt input 2
  return first == some 0x49 && second == some 0x44 && third.all Byte.isBlank

def passDataMark : Lex Unit := do
  advance 2
  match ← peek input with
  | some b => if Byte.isBlank b then advance 1 else return
  | none => return

def spellsEnd (here : Nat) : Lex Bool := do
  if (← byteAt input here) == 0x45 then return (← byteAt input (here + 1)) == 0x49
  else return false

def standsApart (start here : Nat) : Lex Bool :=
  if here == start then return true
  else do return Byte.isBlank (← byteBefore input here)

def atEndMark (start : Nat) : Lex Bool := do
  let here ← position
  let spelled ← spellsEnd input here
  let apart ← standsApart input start here
  let next ← peekAt input 2
  return spelled && apart && next.all fun b => Byte.isBlank b || Byte.isDelimiter b

def dataEnd (start here : Nat) : Lex Nat :=
  if start < here then do
    if Byte.isBlank (← byteBefore input here) then return here - 1 else return here
  else return here

def imageData (start : Nat) : Nat → Lex Bytes
  | 0 => timeOut
  | clock + 1 => do
    if (← position) + 1 < input.length then
      if ← atEndMark input start then
        let stop ← dataEnd input start (← position)
        let data ← slice input start stop
        advance 2
        return data
      else
        advance 1
        imageData start clock
    else fail .imageWithoutEnd

def markedData (clock : Nat) : Lex Bytes := do
  passDataMark input
  imageData input (← position) clock

def imageRest : Nat → List (String × Operand) → Lex (List (String × Operand) × Bytes)
  | 0, _ => timeOut
  | clock + 1, entries => do
    skip input clock
    match ← peek input with
    | none => fail .imageWithoutData
    | some b =>
      if ← atDataMark input then
        let data ← markedData input clock
        return (entries.reverse, data)
      else if b == Byte.slash then
        let key ← called .name (name input clock)
        skip input clock
        let entry ← called .value (value input clock)
        imageRest clock ((key, entry) :: entries)
      else fail .imageKeyExpected

def closing : Lex (List Token) := do
  let start ← position
  advance (if (← peekAt input 1) == some Byte.greater then 2 else 1)
  return [.stray (← passed input start).toText]

def word (clock : Nat) : Lex (List Token) := do
  let word ← called .keyword (keyword input clock)
  if word == Bytes.ofLatin "BI" then
    let image ← called .image (imageRest input clock [])
    return [.operator "BI", .operand (.dictionary image.1), .operator "ID",
      .operand (.literal image.2), .operator "EI"]
  else return [Token.ofWord word.toText]

def stray (clock : Nat) : Lex (List Token) := do
  let start ← position
  passWhile input Token.isStrayByte clock
  if (← position) == start then
    advance 1
    return [.stray (← passed input start).toText]
  else return [.stray (← passed input start).toText]

def step (b : UInt8) (clock : Nat) : Lex (List Token) := do
  if Token.isLoneDelimiter b then
    advance 1
    return [.stray (Bytes.toText [b])]
  else if b == Byte.greater then closing input
  else if Operand.isWordStart b then word input clock
  else if Operand.isStart b then return [.operand (← called .value (value input clock))]
  else stray input clock

def tokensFrom : Nat → List Token → Lex (List Token)
  | 0, _ => timeOut
  | clock + 1, tokens => do
    skip input clock
    match ← peek input with
    | none => return tokens
    | some b =>
      let more ← called .step (step input b clock)
      tokensFrom clock (tokens ++ more)

/-- The tokens of the whole input, and where the cursor went. -/
def tokenize (clock : Nat) : Option (Except Fault (List Token) × State) :=
  tokensFrom input clock [] {}

end PdfContent.Lexer
