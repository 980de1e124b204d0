import PdfContent.Document.Object

/-!
Stream filters: data passes through the filters of its stream in order. Of compressed data, stored
blocks are understood.
-/

namespace PdfContent.External.Filters

inductive Fault
  | object (cause : ObjectFault)
  | unsupported
  | zeroInsideGroup
  | groupOverflow
  deriving DecidableEq, Inhabited

def Fault.message : Fault → String
  | object cause => cause.message
  | unsupported =>
    "missing feature of lopdf: decompression algorithms; please open an issue at " ++
      "https://github.com/J-F-Liu/lopdf/ to let the developers know of your usecase"
  | zeroInsideGroup =>
    "couldn't decompress stream decoding ASCII85 failed: " ++
      "z character is not allowed in the middle of a group"
  | groupOverflow =>
    "couldn't decompress stream decoding ASCII85 failed: multiplication overflow"

def isFiller (b : UInt8) : Bool :=
  b == Byte.space || b == Byte.tab || b == Byte.lineFeed || b == Byte.formFeed ||
    b == Byte.carriageReturn

def bytesOf (n : Nat) : Bytes :=
  [(n / 0x1000000 % 256).toUInt8, (n / 0x10000 % 256).toUInt8, (n / 0x100 % 256).toUInt8,
   (n % 256).toUInt8]

def push85 (group digit : Nat) : Except Fault Nat :=
  if group * 85 < 0x100000000 then .ok ((group * 85 + digit) % 0x100000000)
  else .error .groupOverflow

def fill85 (group : Nat) : Nat → Except Fault Nat
  | 0 => .ok group
  | n + 1 => (push85 group 84).bind fun g => fill85 g n

def finish85 (group count : Nat) : Except Fault Bytes :=
  if count == 0 then .ok []
  else (fill85 group (5 - count)).map fun g => (bytesOf g).take (count - 1)

def decode85 (group count : Nat) : Bytes → Except Fault Bytes
  | [] => finish85 group count
  | b :: s =>
    if b == 0x7A then
      if count == 0 then (decode85 0 0 s).map fun out => [0, 0, 0, 0] ++ out
      else .error .zeroInsideGroup
    else if isFiller b then decode85 group count s
    else if 0x21 ≤ b && b ≤ 0x75 then
      match push85 group (b.toNat - 0x21) with
      | .error e => .error e
      | .ok g =>
        if count == 4 then (decode85 0 0 s).map fun out => bytesOf g ++ out
        else decode85 g (count + 1) s
    else finish85 group count

def dropEnd85 (s : Bytes) : Bytes :=
  match Bytes.afterWord? [Byte.greater, Byte.tilde] s.reverse with
  | some r => r.reverse
  | none => s

def storedBlocks : Bytes → Bytes
  | head :: l₀ :: l₁ :: n₀ :: n₁ :: s =>
    let length := l₀.toNat + l₁.toNat * 256
    let complement := n₀.toNat + n₁.toNat * 256
    if head.toNat / 2 % 4 != 0 || length + complement != 0xFFFF then []
    else
      let data := s.take length
      if head.toNat % 2 == 1 then data else data ++ storedBlocks (s.drop length)
  | _ => []
termination_by s => s.length
decreasing_by simp only [List.length_drop, List.length_cons]; omega

def isHeader (method flags : Nat) : Bool :=
  method % 16 == 8 && method / 16 ≤ 7 && flags / 32 % 2 == 0 && (method * 256 + flags) % 31 == 0

def inflate : Bytes → Bytes
  | method :: flags :: s => if isHeader method.toNat flags.toNat then storedBlocks s else []
  | _ => []

def run (name : Bytes) (data : Bytes) : Except Fault Bytes :=
  if name == Bytes.ofLatin "ASCII85Decode" then decode85 0 0 (dropEnd85 data)
  else if name == Bytes.ofLatin "FlateDecode" then .ok (inflate data)
  else .error .unsupported

def runAll : List Bytes → Bytes → Except Fault Bytes
  | [], data => .ok data
  | name :: rest, data => (run name data).bind (runAll rest)

def filterName : PdfObject → Except Fault Bytes
  | .name n => .ok n
  | o => .error (.object (o.wrongType "Name"))

def chain : PdfObject → Except Fault (List Bytes)
  | .name n => .ok [n]
  | .array items => items.mapM filterName
  | o => .error (.object (o.wrongType "Name or Array"))

def decode (entries : Dictionary) (data : Bytes) : Except Fault Bytes := do
  match ← chain ((entries.entry? "Filter").getD .null) with
  | [] => return []
  | names => runAll names data

end PdfContent.External.Filters
