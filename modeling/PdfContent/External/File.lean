import PdfContent.Document.Basic
import PdfContent.Operand.Leaf

/-!
Documents written as files. A file is read from its start to its end: an indirect object stands
between `obj` and `endobj`, and of two with one number the later one counts; the trailer stands
before `startxref`, or it is the dictionary of a cross-reference stream. Objects inside compressed
object streams are not seen.
-/

namespace PdfContent.External.File

inductive Piece
  | object (value : PdfObject)
  | openArray
  | closeArray
  | openDictionary
  | closeDictionary
  | streamData (data : Bytes)
  | word (text : Bytes)
  deriving Inhabited

def spanTo (mark : Bytes) : Bytes → Bytes × Bytes
  | [] => ([], [])
  | b :: s =>
    match Bytes.afterWord? mark (b :: s) with
    | some r => ([], r)
    | none =>
      let rest := spanTo mark s
      (b :: rest.1, rest.2)

theorem spanTo_length_le (mark s : Bytes) : (spanTo mark s).2.length ≤ s.length := by
  induction s with
  | nil => simp [spanTo]
  | cons b s ih =>
    simp only [spanTo]
    split
    · rename_i r h
      simp [Bytes.afterWord?_eq_some.1 h]
    · simp only [List.length_cons]
      omega

def dropFirstLineEnd : Bytes → Bytes
  | 0x0D :: 0x0A :: s => s
  | 0x0A :: s => s
  | s => s

def dropLastLineEnd (s : Bytes) : Bytes :=
  match s.reverse with
  | 0x0A :: 0x0D :: r => r.reverse
  | 0x0A :: r => r.reverse
  | 0x0D :: r => r.reverse
  | _ => s

def readData (s : Bytes) : Bytes × Bytes :=
  let raw := spanTo (Bytes.ofLatin "endstream") s
  (dropLastLineEnd (dropFirstLineEnd raw.1), raw.2)

def ofNumber : Operand → PdfObject
  | .integer i => .integer i
  | .real x => .ofReal x
  | _ => .null

def readWord (b : UInt8) (s : Bytes) : Piece × Bytes :=
  let word := b :: s.takeWhile Byte.isRegular
  let rest := s.dropWhile Byte.isRegular
  if word == Bytes.ofLatin "stream" then
    let data := readData rest
    (.streamData data.1, data.2)
  else if word == Bytes.ofLatin "true" then (.object (.boolean true), rest)
  else if word == Bytes.ofLatin "false" then (.object (.boolean false), rest)
  else if word == Bytes.ofLatin "null" then (.object .null, rest)
  else (.word word, rest)

/-- The piece that starts with a byte, and what follows it. A string that is malformed is passed
over by its first byte. -/
def readPiece (b : UInt8) (s : Bytes) : Piece × Bytes :=
  if b == Byte.openParen then
    match Operand.readLiteral 0 s with
    | some (v, r) => (.object (.string v), r)
    | none => (.word [b], s)
  else if b == Byte.less then
    match Bytes.after? Byte.less s with
    | some r => (.openDictionary, r)
    | none =>
      match Operand.readHex none s with
      | .ok (v, r) => (.object (.string v), r)
      | .error _ => (.word [b], s)
  else if b == Byte.greater then
    match Bytes.after? Byte.greater s with
    | some r => (.closeDictionary, r)
    | none => (.word [b], s)
  else if b == Byte.openBracket then (.openArray, s)
  else if b == Byte.closeBracket then (.closeArray, s)
  else if b == Byte.slash then
    let name := Operand.spanRegular s
    (.object (.name (Operand.unescapeName name.1)), name.2)
  else if Operand.isNumberStart b then
    let number := Operand.readNumber (b :: s)
    (.object (ofNumber number.1), number.2)
  else if Byte.isDelimiter b then (.word [b], s)
  else readWord b s

theorem readWord_length_le (b : UInt8) (s : Bytes) : (readWord b s).2.length ≤ s.length := by
  have hs := dropWhile_length_le Byte.isRegular s
  have hd := spanTo_length_le (Bytes.ofLatin "endstream") (s.dropWhile Byte.isRegular)
  simp only [readWord, readData]
  repeat' split
  all_goals (dsimp only; omega)

theorem readPiece_length_le (b : UInt8) (s : Bytes) : (readPiece b s).2.length ≤ s.length := by
  simp only [readPiece]
  split
  · split
    · exact Nat.le_of_lt (Operand.readLiteral_length ‹_›)
    · exact Nat.le_refl _
  split
  · split
    · rename_i r h
      simp [Bytes.after?_eq_some.1 h]
    · split
      · exact Nat.le_of_lt (Operand.readHex_length ‹_›)
      · exact Nat.le_refl _
  split
  · split
    · rename_i r h
      simp [Bytes.after?_eq_some.1 h]
    · exact Nat.le_refl _
  split
  · exact Nat.le_refl _
  split
  · exact Nat.le_refl _
  split
  · exact dropWhile_length_le _ s
  split
  · rename_i h
    have := Operand.readNumber_length (s := s) h
    simp only [List.length_cons] at this
    dsimp only
    omega
  split
  · exact Nat.le_refl _
  · exact readWord_length_le b s

def pieces (s : Bytes) : List Piece :=
  match _ : skipBlank s with
  | [] => []
  | b :: r =>
    let piece := readPiece b r
    piece.1 :: pieces piece.2
termination_by s.length
decreasing_by
  have := skipBlank_length_le s
  have := readPiece_length_le b r
  simp_all only [List.length_cons]
  omega

structure Reading where
  items : List PdfObject := []
  outer : List (List PdfObject) := []
  current : ObjectId := ⟨0, 0⟩
  objects : List (ObjectId × PdfObject) := []
  trailer : Dictionary := []

namespace Reading

def push (r : Reading) (o : PdfObject) : Reading := { r with items := o :: r.items }

def enter (r : Reading) : Reading := { r with items := [], outer := r.items :: r.outer }

def leave (r : Reading) (close : List PdfObject → PdfObject) : Reading :=
  { r with items := close r.items.reverse :: r.outer.headD [], outer := r.outer.tail }

def entries : List PdfObject → List (Bytes × PdfObject)
  | .name key :: value :: rest => (key, value) :: entries rest
  | _ :: rest => entries rest
  | [] => []

def attach (r : Reading) (data : Bytes) : Reading :=
  match r.items with
  | .dictionary d :: rest => { r with items := .stream d data :: rest }
  | _ => r

def id? (r : Reading) : Option (ObjectId × List PdfObject) :=
  match r.items with
  | .integer generation :: .integer number :: rest =>
    some (⟨number.toNat, generation.toNat⟩, rest)
  | _ => none

def complete (r : Reading) (o : PdfObject) : Reading :=
  let trailer :=
    match o with
    | .stream d _ => if Dictionary.isNamed d "Type" "XRef" then d else r.trailer
    | _ => r.trailer
  { r with items := [], outer := [], objects := (r.current, o) :: r.objects, trailer }

def readWord (r : Reading) (word : Bytes) : Reading :=
  if word == Bytes.ofLatin "R" then
    match r.id? with
    | some (id, rest) => { r with items := .reference id :: rest }
    | none => r
  else if word == Bytes.ofLatin "obj" then
    match r.id? with
    | some (id, _) => { r with items := [], outer := [], current := id }
    | none => r
  else if word == Bytes.ofLatin "endobj" then
    match r.items with
    | o :: _ => r.complete o
    | [] => r
  else if word == Bytes.ofLatin "startxref" then
    match r.items with
    | .dictionary d :: _ => { r with items := [], outer := [], trailer := d }
    | _ => r
  else r

def feed (r : Reading) : Piece → Reading
  | .object o => r.push o
  | .openArray => r.enter
  | .openDictionary => r.enter
  | .closeArray => r.leave .array
  | .closeDictionary => r.leave fun items => .dictionary (entries items)
  | .streamData data => r.attach data
  | .word word => r.readWord word

end Reading

def hasMark (data : Bytes) : Bool :=
  let rest := (spanTo (Bytes.ofLatin "%PDF-") data).1
  rest.length < data.length

def read? (data : Bytes) : Option Document :=
  if hasMark data then
    let start : Reading := {}
    let r := (pieces data).foldl Reading.feed start
    some { objects := r.objects, trailer := r.trailer }
  else none

end PdfContent.External.File
