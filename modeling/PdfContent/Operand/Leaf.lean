import PdfContent.Blank
import PdfContent.Operand
import PdfContent.Number.Decimal
import PdfContent.SyntaxFault
import PdfContent.Text.Utf8

/-!
Operands that hold no other operand: names, strings, numbers and words. Each reader takes the
bytes from the first one it needs and returns what it read with the bytes after it; every reader
of a whole operand leaves fewer bytes than it was given.
-/

namespace PdfContent

theorem map_eq_ok {ε α β : Type} {f : α → β} {x : Except ε α} {b : β}
    (h : x.map f = .ok b) : ∃ a, x = .ok a ∧ f a = b := by
  cases x with
  | error e => simp [Except.map] at h
  | ok a => exact ⟨a, rfl, by simpa [Except.map] using h⟩

namespace Operand

def isWordStart (b : UInt8) : Bool :=
  Byte.isLetter b || b == 0x2A || b == 0x27 || b == 0x22

def isNumberStart (b : UInt8) : Bool :=
  Byte.isDigit b || b == Byte.plus || b == Byte.minus || b == Byte.dot

def isStart (b : UInt8) : Bool :=
  b == Byte.openParen || b == Byte.less || b == Byte.openBracket || b == Byte.slash ||
    isNumberStart b

def spanRegular (s : Bytes) : Bytes × Bytes :=
  (s.takeWhile Byte.isRegular, s.dropWhile Byte.isRegular)

/-- Decodes `#` followed by two hexadecimal digits; any other `#` stands for itself. -/
def unescapeName : Bytes → Bytes
  | [] => []
  | [a] => [a]
  | [a, b] => [a, b]
  | a :: b :: c :: s =>
    if a == Byte.hash then
      match Byte.hexValue b, Byte.hexValue c with
      | some h, some l => (h * 16 + l).toUInt8 :: unescapeName s
      | _, _ => a :: unescapeName (b :: c :: s)
    else a :: unescapeName (b :: c :: s)

def readName (s : Bytes) : String × Bytes :=
  ((unescapeName (spanRegular s).1).toText, (spanRegular s).2)

def readOctal : Nat → Nat → Bytes → Nat × Bytes
  | 0, v, s => (v, s)
  | _ + 1, v, [] => (v, [])
  | n + 1, v, d :: s =>
    if Byte.isOctal d then readOctal n (v * 8 + Byte.digitValue d) s else (v, d :: s)

theorem readOctal_length_le (n v : Nat) (s : Bytes) :
    (readOctal n v s).2.length ≤ s.length := by
  fun_induction readOctal n v s with
  | case1 => simp
  | case2 => simp
  | case3 n v d s _ ih => simp only [List.length_cons]; omega
  | case4 => simp

/-- What the bytes after a backslash stand for: a control character, nothing for a line end, an
octal value modulo 256, or the byte itself. -/
def readEscape (e : UInt8) (s : Bytes) : Bytes × Bytes :=
  if e == 0x6E then ([Byte.lineFeed], s)
  else if e == 0x72 then ([Byte.carriageReturn], s)
  else if e == 0x74 then ([Byte.tab], s)
  else if e == 0x62 then ([0x08], s)
  else if e == 0x66 then ([Byte.formFeed], s)
  else if e == Byte.carriageReturn then
    match Bytes.after? Byte.lineFeed s with
    | some r => ([], r)
    | none => ([], s)
  else if e == Byte.lineFeed then ([], s)
  else if Byte.isOctal e then
    let octal := readOctal 2 (Byte.digitValue e) s
    ([octal.1.toUInt8], octal.2)
  else ([e], s)

theorem readEscape_length_le (e : UInt8) (s : Bytes) :
    (readEscape e s).2.length ≤ s.length := by
  have := readOctal_length_le 2 (Byte.digitValue e) s
  unfold readEscape
  repeat' split
  all_goals first
    | exact Nat.le_refl _
    | exact this
    | (rename_i h; simp [Bytes.after?_eq_some.1 h])

/-- A literal string, from the byte after its parenthesis. `depth` counts the parentheses open
inside it; `none` when it never closes. -/
def readLiteral (depth : Nat) : Bytes → Option (Bytes × Bytes)
  | [] => none
  | b :: s =>
    if b == Byte.openParen then
      (readLiteral (depth + 1) s).map fun r => (b :: r.1, r.2)
    else if b == Byte.closeParen then
      match depth with
      | 0 => some ([], s)
      | d + 1 => (readLiteral d s).map fun r => (b :: r.1, r.2)
    else if b == Byte.backslash then
      match s with
      | [] => none
      | e :: s =>
        let escape := readEscape e s
        (readLiteral depth escape.2).map fun r => (escape.1 ++ r.1, r.2)
    else (readLiteral depth s).map fun r => (b :: r.1, r.2)
termination_by s => s.length
decreasing_by
  · simp
  · simp
  · have := readEscape_length_le e s
    simp only [List.length_cons]
    omega
  · simp

theorem readLiteral_length {depth : Nat} {s : Bytes} {v r : Bytes}
    (h : readLiteral depth s = some (v, r)) : r.length < s.length := by
  fun_induction readLiteral depth s generalizing v r with
  | case1 => simp at h
  | case2 _ b s _ ih =>
    obtain ⟨⟨v', r'⟩, hr, he⟩ := Option.map_eq_some_iff.1 h
    obtain ⟨rfl, rfl⟩ := Prod.mk.inj he
    have := ih hr
    simp only [List.length_cons]
    omega
  | case3 => simp at h; simp [← h.2]
  | case4 b s _ _ d ih =>
    obtain ⟨⟨v', r'⟩, hr, he⟩ := Option.map_eq_some_iff.1 h
    obtain ⟨rfl, rfl⟩ := Prod.mk.inj he
    have := ih hr
    simp only [List.length_cons]
    omega
  | case5 => simp at h
  | case6 _ b _ _ _ e s escape =>
    rename_i ih
    obtain ⟨⟨v', r'⟩, hr, he⟩ := Option.map_eq_some_iff.1 h
    obtain ⟨rfl, rfl⟩ := Prod.mk.inj he
    have := ih hr
    have : escape.2.length ≤ s.length := readEscape_length_le e s
    simp only [List.length_cons]
    omega
  | case7 _ b s _ _ _ ih =>
    obtain ⟨⟨v', r'⟩, hr, he⟩ := Option.map_eq_some_iff.1 h
    obtain ⟨rfl, rfl⟩ := Prod.mk.inj he
    have := ih hr
    simp only [List.length_cons]
    omega

/-- A hexadecimal string, from the byte after its bracket. `high` is the value of a digit that
waits for its second half; at the end it is paired with zero. -/
def readHex (high : Option Nat) : Bytes → Except SyntaxFault (Bytes × Bytes)
  | [] => .error .unclosedHex
  | b :: s =>
    if b == Byte.greater then
      match high with
      | some h => .ok ([(h * 16).toUInt8], s)
      | none => .ok ([], s)
    else if Byte.isBlank b then readHex high s
    else
      match Byte.hexValue b, high with
      | none, _ => .error (.badHexDigit b)
      | some v, none => readHex (some v) s
      | some v, some h => (readHex none s).map fun r => ((h * 16 + v).toUInt8 :: r.1, r.2)

theorem readHex_length {high : Option Nat} {s v r : Bytes} (h : readHex high s = .ok (v, r)) :
    r.length < s.length := by
  fun_induction readHex high s generalizing v r with
  | case1 => simp at h
  | case2 => simp at h; simp [← h.2]
  | case3 => simp at h; simp [← h.2]
  | case4 high b s _ _ ih => have := ih h; simp only [List.length_cons]; omega
  | case5 => simp at h
  | case6 b s _ _ v' _ ih => have := ih h; simp only [List.length_cons]; omega
  | case7 b s _ _ v' _ h' ih =>
    obtain ⟨⟨v'', r''⟩, hr, he⟩ := map_eq_ok h
    obtain ⟨rfl, rfl⟩ := Prod.mk.inj he
    have := ih hr
    simp only [List.length_cons]
    omega

/-- Digits without a point: an integer, or a real when it does not fit in 64 bits. Without any
digit it is zero. -/
def ofWhole (negative : Bool) (digits : Bytes) : Operand :=
  let magnitude : Int := Decimal.ofDigits digits
  let value := if negative then -magnitude else magnitude
  if Decimal.inInt64 value then .integer value else .real (Decimal.nearest negative digits 0)

def ofFraction (negative : Bool) (whole places : Bytes) : Operand :=
  if (whole ++ places).isEmpty then .integer 0
  else .real (Decimal.nearest negative (whole ++ places) places.length)

def readUnsigned (negative : Bool) (s : Bytes) : Operand × Bytes :=
  let whole := s.takeWhile Byte.isDigit
  let r := s.dropWhile Byte.isDigit
  match Bytes.after? Byte.dot r with
  | some r =>
    (ofFraction negative whole (r.takeWhile Byte.isDigit), r.dropWhile Byte.isDigit)
  | none => (ofWhole negative whole, r)

theorem readUnsigned_length_le (negative : Bool) (s : Bytes) :
    (readUnsigned negative s).2.length ≤ s.length := by
  have hs := dropWhile_length_le Byte.isDigit s
  unfold readUnsigned
  dsimp only
  split
  · rename_i r hr
    have := dropWhile_length_le Byte.isDigit r
    rw [Bytes.after?_eq_some.1 hr, List.length_cons] at hs
    dsimp only
    omega
  · exact hs

theorem readUnsigned_length_lt (negative : Bool) (b : UInt8) (s : Bytes)
    (h : Byte.isDigit b || b == Byte.dot) :
    (readUnsigned negative (b :: s)).2.length < (b :: s).length := by
  have hs := dropWhile_length_le Byte.isDigit s
  unfold readUnsigned
  dsimp only
  by_cases hd : Byte.isDigit b
  · rw [List.dropWhile_cons_of_pos hd]
    split
    · rename_i r hr
      have := dropWhile_length_le Byte.isDigit r
      rw [Bytes.after?_eq_some.1 hr, List.length_cons] at hs
      simp only [List.length_cons]
      omega
    · simp only [List.length_cons]
      omega
  · simp only [hd, Bool.false_or, beq_iff_eq] at h
    rw [List.dropWhile_cons_of_neg hd, Bytes.after?_eq_some.2 (congrArg (· :: s) h)]
    simp only [List.length_cons]
    omega

def readNumber : Bytes → Operand × Bytes
  | [] => readUnsigned false []
  | b :: s =>
    if b == Byte.minus then readUnsigned true s
    else if b == Byte.plus then readUnsigned false s
    else readUnsigned false (b :: s)

theorem readNumber_length {b : UInt8} {s : Bytes} (h : isNumberStart b) :
    (readNumber (b :: s)).2.length < (b :: s).length := by
  simp only [readNumber]
  split
  · exact Nat.lt_succ_of_le (readUnsigned_length_le true s)
  · split
    · exact Nat.lt_succ_of_le (readUnsigned_length_le false s)
    · rename_i hm hp
      apply readUnsigned_length_lt
      simpa [isNumberStart, beq_eq_false_iff_ne.2 (by simpa using hm),
        beq_eq_false_iff_ne.2 (by simpa using hp)] using h

/-- A word inside an operand: a truth value, `null`, or a name written without its slash. -/
def ofWord (word : String) : Operand :=
  if word == "true" then .boolean true
  else if word == "false" then .boolean false
  else if word == "null" then .null
  else .name word

end Operand

end PdfContent
