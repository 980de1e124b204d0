import PdfContent.External.MacintoshOrder
import PdfContent.Font.Face
import PdfContent.Number.Numeral
import PdfContent.Text.Utf8

/-!
Font files: the glyph count, the unit of length, advances, character maps and glyph names. All
numbers are big-endian. A field that lies beyond the end of its table makes the table unusable.
-/

namespace PdfContent.External.Sfnt

inductive Fault
  | unknownMagic
  | malformed
  | faceOutOfBounds
  | headMissing
  | hheaMissing
  | maxpMissing
  deriving DecidableEq, Inhabited

def Fault.message : Fault → String
  | unknownMagic => "unknown magic"
  | malformed => "malformed font"
  | faceOutOfBounds => "face index is out of bounds"
  | headMissing => "the head table is missing or malformed"
  | hheaMissing => "the hhea table is missing or malformed"
  | maxpMissing => "the maxp table is missing or malformed"

def word? (data : Bytes) (at_ : Nat) : Option Nat :=
  match data.drop at_ with
  | a :: b :: _ => some (a.toNat * 256 + b.toNat)
  | _ => none

def long? (data : Bytes) (at_ : Nat) : Option Nat := do
  let high ← word? data at_
  let low ← word? data (at_ + 2)
  return high * 65536 + low

def fields? (read? : Bytes → Nat → Option Nat) (size : Nat) (data : Bytes) (at_ count : Nat) :
    Option (List Nat) :=
  if at_ + count * size ≤ data.length then
    (List.range count).mapM fun i => read? data (at_ + i * size)
  else none

def words? : Bytes → Nat → Nat → Option (List Nat) := fields? word? 2

def signed (n : Nat) : Int := if n < 0x8000 then n else (n : Int) - 0x10000

structure TableRecord where
  tag : Nat
  offset : Nat
  length : Nat
  deriving Inhabited

def magicTrueType : Nat := 0x00010000
def magicApple : Nat := 0x74727565
def magicOpenType : Nat := 0x4F54544F
def magicCollection : Nat := 0x74746366

def isFaceMagic (n : Nat) : Bool := n == magicTrueType || n == magicApple || n == magicOpenType

def directory? (data : Bytes) (at_ : Nat) : Option (List TableRecord) := do
  let count ← word? data at_
  guard (at_ + 8 ≤ data.length)
  (List.range count).mapM fun i => do
    let start := at_ + 8 + i * 16
    let tag ← long? data start
    let _ ← long? data (start + 4)
    let offset ← long? data (start + 8)
    let length ← long? data (start + 12)
    return ⟨tag, offset, length⟩

def collectionFace (data : Bytes) : Except Fault Nat :=
  match long? data 8 with
  | none => .error .malformed
  | some 0 => .error .faceOutOfBounds
  | some count =>
    match fields? long? 4 data 12 count with
    | none => .error .malformed
    | some offsets =>
      let start := offsets.headD 0
      if start < 12 + 4 * count || data.length < start then .error .malformed
      else
        match long? data start with
        | some magic => if isFaceMagic magic then .ok (start + 4) else .error .unknownMagic
        | none => .error .unknownMagic

def readDirectory (data : Bytes) : Except Fault (List TableRecord) := do
  let start ←
    match long? data 0 with
    | none => throw .unknownMagic
    | some magic =>
      if magic == magicCollection then collectionFace data
      else if isFaceMagic magic then pure 4
      else throw .unknownMagic
  match directory? data start with
  | some records => return records
  | none => throw .malformed

def tagOf (name : String) : Nat := Bytes.bigEndian (Bytes.ofLatin name)

def table? (data : Bytes) (records : List TableRecord) (name : String) : Option Bytes :=
  match records.reverse.find? fun r => r.tag == tagOf name with
  | some r =>
    if r.offset + r.length ≤ data.length then some ((data.drop r.offset).take r.length) else none
  | none => none

def unitsPerEm? (head : Bytes) : Option Nat := do
  guard (54 ≤ head.length)
  let units ← word? head 18
  let format ← word? head 50
  guard (16 ≤ units && units ≤ 16384 && format ≤ 1)
  return units

def metricCount? (hhea : Bytes) : Option Nat := word? hhea 34

def glyphCount? (maxp : Bytes) : Option Nat := do
  let version ← long? maxp 0
  guard (version == 0x00005000 || version == 0x00010000)
  let count ← word? maxp 4
  guard (count != 0)
  return count

/-- Glyphs below the limit have an advance; past the last one listed they repeat it. -/
structure Advances where
  listed : List Nat
  limit : Nat
  deriving Inhabited

def Advances.ofTable? (hmtx : Bytes) (metricCount glyphCount : Nat) : Option Advances := do
  guard (metricCount != 0)
  let listed ← (List.range metricCount).mapM fun i => do
    let _ ← word? hmtx (i * 4 + 2)
    word? hmtx (i * 4)
  return ⟨listed, max metricCount glyphCount⟩

def Advances.get? (a : Advances) (glyph : Nat) : Option Nat :=
  if glyph < a.limit then a.listed[glyph]?.or a.listed.getLast? else none

structure Segment where
  start : Nat
  stop : Nat
  delta : Nat
  rangeOffset : Nat
  position : Nat
  deriving Inhabited

structure Group where
  start : Nat
  stop : Nat
  glyph : Nat
  deriving Inhabited

/-- Maps of the four formats that map characters here, and maps of formats that do not. -/
inductive MapFormat
  | byteTable (glyphs : List Nat)
  | segments (list : List Segment) (data : Bytes)
  | trimmed (first : Nat) (glyphs : List Nat)
  | groups (list : List Group)
  | unmapped (manyToOne : Bool)
  deriving Inhabited

structure Table where
  platform : Nat
  encoding : Nat
  format : MapFormat
  deriving Inhabited

def byteTable? (data : Bytes) : Option MapFormat := do
  guard (262 ≤ data.length)
  return .byteTable (((data.drop 6).take 256).map UInt8.toNat)

def segments? (data : Bytes) : Option MapFormat := do
  let doubled ← word? data 6
  guard (2 ≤ doubled)
  let count := doubled / 2
  let stops ← words? data 14 count
  let starts ← words? data (16 + 2 * count) count
  let deltas ← words? data (16 + 4 * count) count
  let base := 16 + 6 * count
  let offsets ← words? data base count
  let list := (List.range count).map fun i =>
    ({ start := starts.getD i 0, stop := stops.getD i 0, delta := deltas.getD i 0
       rangeOffset := offsets.getD i 0, position := base + 2 * i } : Segment)
  return .segments list data

def trimmed? (data : Bytes) : Option MapFormat := do
  let first ← word? data 6
  let count ← word? data 8
  let glyphs ← words? data 10 count
  return .trimmed first glyphs

def groups? (data : Bytes) : Option MapFormat := do
  let count ← long? data 12
  guard (16 + 12 * count ≤ data.length)
  let list ← (List.range count).mapM fun i => do
    let start ← long? data (16 + 12 * i)
    let stop ← long? data (20 + 12 * i)
    let glyph ← long? data (24 + 12 * i)
    return (⟨start, stop, glyph⟩ : Group)
  return .groups list

def format? (data : Bytes) : Option MapFormat := do
  match ← word? data 0 with
  | 0 => byteTable? data
  | 4 => segments? data
  | 6 => trimmed? data
  | 12 => groups? data
  | 13 => return .unmapped true
  | 2 => return .unmapped false
  | 8 => return .unmapped false
  | 10 => return .unmapped false
  | 14 => return .unmapped false
  | _ => none

def characterTable? (cmap : Bytes) (index : Nat) : Option Table := do
  let platform ← word? cmap (4 + 8 * index)
  let encoding ← word? cmap (6 + 8 * index)
  let offset ← long? cmap (8 + 8 * index)
  guard (platform ≤ 4 && offset ≤ cmap.length)
  let format ← format? (cmap.drop offset)
  return ⟨platform, encoding, format⟩

def characterTables (cmap : Bytes) : List Table :=
  match word? cmap 2 with
  | none => []
  | some count =>
    if cmap.length < 4 + 8 * count then []
    else
      (((List.range count).map (characterTable? cmap)).takeWhile Option.isSome).filterMap id

def bisect (list : Array Segment) (char : Nat) (low high : Nat) : Option Segment :=
  if _ : low < high then
    let middle := (low + high) / 2
    match list[middle]? with
    | none => none
    | some s =>
      if s.stop < char then bisect list char (middle + 1) high
      else if char < s.start then bisect list char low middle
      else some s
  else none
termination_by high - low

def segmentGlyph? (s : Segment) (data : Bytes) (char : Nat) : Option Nat :=
  if s.rangeOffset == 0 then some ((char + s.delta) % 65536)
  else if s.rangeOffset == 0xFFFF then none
  else if 0xFFFF < (char - s.start) * 2 then none
  else
    match word? data ((s.position + (char - s.start) * 2 + s.rangeOffset) % 65536) with
    | none => none
    | some 0 => none
    | some glyph =>
      let moved := (glyph + s.delta) % 65536
      if moved < 0x8000 then some moved else none

def narrow (list : Array Group) (char : Nat) (base size : Nat) : Option Group :=
  if _ : 1 < size then
    let half := size / 2
    match list[base + half]? with
    | none => none
    | some g => narrow list char (if char < g.start then base else base + half) (size - half)
  else list[base]?
termination_by size

def groupGlyph? (list : Array Group) (char : Nat) : Option Nat :=
  match narrow list char 0 list.size with
  | some g =>
    if g.start ≤ char && char ≤ g.stop && g.glyph + char ≤ Numeral.greatest32 then
      let glyph := g.glyph + char - g.start
      if glyph < 65536 then some glyph else none
    else none
  | none => none

def MapFormat.glyph? (format : MapFormat) (char : Nat) : Option Nat :=
  let found : Option Nat :=
    match format with
    | .byteTable glyphs => glyphs[char]?
    | .segments list data =>
      if char < 65536 then
        (bisect list.toArray char 0 list.length).bind fun s => segmentGlyph? s data char
      else none
    | .trimmed first glyphs =>
      if first ≤ char && char < 65536 then glyphs[char - first]? else none
    | .groups list => groupGlyph? list.toArray char
    | .unmapped _ => none
  found.filter (· != 0)

def Table.isUnicode (m : Table) : Bool :=
  m.platform == 0 || (m.platform == 3 && m.encoding == 1) ||
    (m.platform == 3 && m.encoding == 10 &&
      match m.format with
      | .groups _ => true
      | .unmapped manyToOne => manyToOne
      | _ => false)

structure GlyphNames where
  indices : List Nat
  added : List Bytes
  deriving Inhabited

def addedNames : Bytes → List Bytes
  | [] => []
  | n :: rest =>
    let name := rest.take n.toNat
    if n == 0 || rest.length < n.toNat || Bytes.ofUtf8 (Bytes.toText name) != name then []
    else name :: addedNames (rest.drop n.toNat)
termination_by s => s.length
decreasing_by simp only [List.length_drop, List.length_cons]; omega

def glyphNames? (post : Bytes) : Option GlyphNames := do
  guard (32 ≤ post.length)
  let version ← long? post 0
  guard (version == 0x00020000)
  let count ← word? post 32
  let indices ← words? post 34 count
  return ⟨indices, addedNames (post.drop (34 + 2 * count))⟩

def GlyphNames.glyph? (names : GlyphNames) (name : String) : Option Nat :=
  let number? : Option Nat :=
    match macintoshOrder.findIdx? (· == name) with
    | some i => some i
    | none =>
      (names.added.findIdx? (· == Bytes.ofUtf8 name)).map (· + macintoshOrder.length)
  number?.bind fun number => names.indices.findIdx? (· == number)

def require {α : Type} (value : Option α) (fault : Fault) : Except Fault α :=
  match value with
  | some v => .ok v
  | none => .error fault

def read (data : Bytes) : Except Fault Face := do
  let records ← readDirectory data
  let table? := table? data records
  let unitsPerEm ← require ((table? "head").bind unitsPerEm?) .headMissing
  let metricCount ← require ((table? "hhea").bind metricCount?) .hheaMissing
  let glyphCount ← require ((table? "maxp").bind glyphCount?) .maxpMissing
  let tables := ((table? "cmap").map characterTables).getD []
  let advances := (table? "hmtx").bind fun t => Advances.ofTable? t metricCount glyphCount
  let names := (table? "post").bind glyphNames?
  return {
    unitsPerEm, glyphCount
    maps := tables.map fun t => ⟨t.platform, t.encoding, t.format.glyph?⟩
    glyphNamed? := fun name => names.bind fun names => names.glyph? name
    glyphOf? := fun c =>
      (tables.filter Table.isUnicode).findSome? fun t => t.format.glyph? c.toNat
    advance? := fun glyph => advances.bind fun a => a.get? glyph }

end PdfContent.External.Sfnt
