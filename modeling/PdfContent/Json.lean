/-!
JSON values and how they are written: on one line, without blanks between tokens. In a string only
the quote, the backslash and the controls are escaped.
-/

namespace PdfContent

inductive Json
  | null
  | boolean (value : Bool)
  | integer (value : Int)
  | string (text : String)
  | array (items : List Json)
  | object (fields : List (String × Json))
  deriving Inhabited

namespace Json

def ofOption {α : Type} (encode : α → Json) : Option α → Json
  | some a => encode a
  | none => null

def ofNat (n : Nat) : Json := integer n

def ofList {α : Type} (encode : α → Json) (items : List α) : Json := array (items.map encode)

def codeUnit (n : Nat) : List Char :=
  let digits := Nat.toDigits 16 n
  List.replicate (4 - digits.length) '0' ++ digits

def escape (c : Char) : List Char :=
  if c == '"' || c == '\\' then ['\\', c]
  else if c.toNat == 0x08 then ['\\', 'b']
  else if c == '\t' then ['\\', 't']
  else if c == '\n' then ['\\', 'n']
  else if c.toNat == 0x0C then ['\\', 'f']
  else if c == '\r' then ['\\', 'r']
  else if c.toNat < 0x20 then ['\\', 'u'] ++ codeUnit c.toNat
  else [c]

def quote (s : String) : String :=
  String.ofList (['"'] ++ s.toList.flatMap escape ++ ['"'])

mutual

def append (out : String) : Json → String
  | null => out ++ "null"
  | boolean value => out ++ (if value then "true" else "false")
  | integer value => out ++ toString value
  | string text => out ++ quote text
  | array items => (appendItems (out.push '[') false items).push ']'
  | object fields => (appendFields (out.push '\x7b') false fields).push '\x7d'

def appendItems (out : String) (more : Bool) : List Json → String
  | [] => out
  | item :: rest => appendItems (append (if more then out.push ',' else out) item) true rest

def appendFields (out : String) (more : Bool) : List (String × Json) → String
  | [] => out
  | (key, value) :: rest =>
    let start := if more then out.push ',' else out
    appendFields (append ((start ++ quote key).push ':') value) true rest

end

def render (value : Json) : String := append "" value

end Json

end PdfContent
