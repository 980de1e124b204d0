import PdfContent.Proofs.NameSpelling

/-!
Printing tokens. The operands that are printed hold no reals, whose numerals may be rounded;
everything else is written so that nothing of it is lost. Parts are set apart by one space, and
the brackets of a container either stand like parts of their own or close to what they hold.
-/

namespace PdfContent

/-- A word that is read as an operator when it stands by itself. -/
structure Keyword where
  text : String
  start : (Bytes.ofUtf8 text).head?.any Operand.isWordStart = true
  regular : ∀ b ∈ Bytes.ofUtf8 text, Byte.isRegular b = true
  free : text ∉ ["true", "false", "null", "BI"]

inductive PlainOperand
  | null
  | boolean (value : Bool)
  | integer (value : Int64)
  | name (text : String)
  | literal (bytes : Bytes)
  | hex (bytes : Bytes)
  | array (items : List PlainOperand)
  | dictionary (entries : List (String × PlainOperand))

inductive PlainToken
  | operand (value : PlainOperand)
  | operator (word : Keyword)

namespace PlainOperand

mutual

def toOperand : PlainOperand → Operand
  | null => .null
  | boolean b => .boolean b
  | integer i => .integer i.toInt
  | name text => .name text
  | literal bytes => .literal bytes
  | hex bytes => .hex bytes
  | array items => .array (toOperands items)
  | dictionary entries => .dictionary (toEntries entries)

def toOperands : List PlainOperand → List Operand
  | [] => []
  | x :: xs => toOperand x :: toOperands xs

def toEntries : List (String × PlainOperand) → List (String × Operand)
  | [] => []
  | (key, x) :: entries => (key, toOperand x) :: toEntries entries

end

def writeInteger (i : Int) : Bytes := Bytes.ofLatin (toString i)

def escapeLiteral (b : UInt8) : Bytes :=
  if b == Byte.openParen || b == Byte.closeParen || b == Byte.backslash then [Byte.backslash, b]
  else [b]

def writeName (text : String) : Bytes :=
  Byte.slash :: Operand.escapeName (Bytes.ofUtf8 text)

def writeLiteral (bytes : Bytes) : Bytes :=
  Byte.openParen :: (bytes.flatMap escapeLiteral ++ [Byte.closeParen])

def writeHex (bytes : Bytes) : Bytes :=
  Byte.less :: (bytes.flatMap Byte.hexPair ++ [Byte.greater])

theorem readLiteral_write (bytes t : Bytes) :
    Operand.readLiteral 0 (bytes.flatMap escapeLiteral ++ Byte.closeParen :: t) =
      some (bytes, t) := by
  induction bytes with
  | nil => exact Operand.readLiteral_close t
  | cons b bytes ih =>
    rw [List.flatMap_cons, List.append_assoc, escapeLiteral]
    split_ifs with hb
    · have hescape : ∀ s, Operand.readEscape b s = ([b], s) := by
        intro s
        simp only [Bool.or_eq_true, beq_iff_eq] at hb
        rcases hb with (rfl | rfl) | rfl <;> rfl
      rw [List.cons_append, List.singleton_append, Operand.readLiteral_escape, hescape, ih]
      rfl
    · simp only [Bool.or_eq_true, not_or] at hb
      obtain ⟨⟨hopen, hclose⟩, hback⟩ := hb
      rw [List.singleton_append, Operand.readLiteral_plain hopen hclose hback, ih]
      rfl

theorem readHex_pair (b : UInt8) (s : Bytes) :
    Operand.readHex none (Byte.hexPair b ++ s) =
      (Operand.readHex none s).map fun r => (b :: r.1, r.2) := by
  have digit : ∀ n : Fin 16, (Byte.hexDigit n == Byte.greater) = false ∧
      Byte.isBlank (Byte.hexDigit n) = false := by decide
  obtain ⟨hhigh, hlow⟩ := Byte.half_lt b
  obtain ⟨hg, hw⟩ := digit ⟨_, hhigh⟩
  obtain ⟨hg', hw'⟩ := digit ⟨_, hlow⟩
  rw [Byte.hexPair, List.cons_append, List.singleton_append,
    Operand.readHex_first (by rw [hg]; decide) (by rw [hw]; decide) (Byte.hexValue_hexDigit hhigh),
    Operand.readHex_second (by rw [hg']; decide) (by rw [hw']; decide)
      (Byte.hexValue_hexDigit hlow), Byte.halves]

theorem readHex_write (bytes t : Bytes) :
    Operand.readHex none (bytes.flatMap Byte.hexPair ++ Byte.greater :: t) = .ok (bytes, t) := by
  induction bytes with
  | nil => exact Operand.readHex_close none t
  | cons b bytes ih =>
    rw [List.flatMap_cons, List.append_assoc, readHex_pair, ih]
    rfl

def writeDigits (n : Nat) : Bytes := (Nat.toDigits 10 n).map fun c => c.toNat.toUInt8

theorem digit_toUInt8 {c : Char} (h : c.isDigit = true) :
    Byte.isDigit c.toNat.toUInt8 = true ∧
      Byte.digitValue c.toNat.toUInt8 = c.toNat - '0'.toNat := by
  obtain ⟨hmin, hmax⟩ : 48 ≤ c.toNat ∧ c.toNat ≤ 57 := by
    simpa [Char.isDigit, UInt32.le_iff_toNat_le] using h
  have all : ∀ n : Fin 10, Byte.isDigit (48 + n.val).toUInt8 = true ∧
      Byte.digitValue (48 + n.val).toUInt8 = 48 + n.val - '0'.toNat := by decide
  have hc := all ⟨c.toNat - 48, by omega⟩
  rwa [Nat.add_sub_cancel' hmin] at hc

theorem isDigit_writeDigits (n : Nat) : ∀ b ∈ writeDigits n, Byte.isDigit b = true := by
  intro b hb
  obtain ⟨c, hc, rfl⟩ := List.mem_map.1 hb
  exact (digit_toUInt8 (Nat.isDigit_of_mem_toDigits (by decide) (by decide) hc)).1

theorem writeDigits_ne_nil (n : Nat) : writeDigits n ≠ [] := by
  rw [writeDigits, ne_eq, List.map_eq_nil_iff]
  exact Nat.toDigits_ne_nil

theorem ofDigits_writeDigits (n : Nat) : Decimal.ofDigits (writeDigits n) = n := by
  have fold : ∀ (cs : List Char) (start : Nat), (∀ c ∈ cs, c.isDigit = true) →
      (cs.map fun c => c.toNat.toUInt8).foldl (fun n b => n * 10 + Byte.digitValue b) start =
        Nat.ofDigitChars 10 cs start := by
    intro cs
    induction cs with
    | nil => exact fun _ _ => rfl
    | cons c cs ih =>
      intro start hcs
      rw [List.forall_mem_cons] at hcs
      rw [List.map_cons, List.foldl_cons, ih _ hcs.2, (digit_toUInt8 hcs.1).2, Nat.mul_comm]
      rfl
  have hdigits : ∀ c ∈ Nat.toDigits 10 n, c.isDigit = true := fun c hc =>
    Nat.isDigit_of_mem_toDigits (by decide) (by decide) hc
  rw [Decimal.ofDigits, writeDigits, fold _ 0 hdigits]
  exact Nat.ofDigitChars_ten_toDigits

theorem writeInteger_eq (i : Int) :
    writeInteger i =
      if 0 ≤ i then writeDigits i.toNat else Byte.minus :: writeDigits (-i).toNat := by
  rw [writeInteger, Int.toString_eq_repr, Int.repr_eq_if]
  split_ifs with h
  · rw [Bytes.ofLatin, Nat.toList_repr]
    rfl
  · rw [Bytes.ofLatin, String.toList_append, Nat.toList_repr]
    rfl

theorem ofWhole_writeDigits {i : Int} (h : Decimal.inInt64 i = true) :
    Operand.ofWhole (decide (i < 0)) (writeDigits i.natAbs) = .integer i := by
  have hvalue : (if decide (i < 0) = true then -(i.natAbs : Int) else i.natAbs) = i := by
    by_cases hi : i < 0
    · rw [if_pos (by simpa using hi)]
      omega
    · rw [if_neg (by simpa using hi)]
      omega
  simp only [Operand.ofWhole, ofDigits_writeDigits, hvalue, if_pos h]

theorem inInt64_toInt (i : Int64) : Decimal.inInt64 i.toInt = true := by
  have hmin : Decimal.int64Min ≤ i.toInt := i.le_toInt
  have hmax : i.toInt ≤ Decimal.int64Max := Int.le_of_lt_add_one i.toInt_lt
  rw [Decimal.inInt64, Bool.and_eq_true, decide_eq_true_eq, decide_eq_true_eq]
  exact ⟨hmin, hmax⟩

theorem readNumber_digit {b : UInt8} (h : Byte.isDigit b = true) (s : Bytes) :
    Operand.readNumber (b :: s) = Operand.readUnsigned false (b :: s) := by
  have hm : ¬ (b == Byte.minus) = true := by
    rintro hb
    obtain rfl : b = Byte.minus := by simpa using hb
    cases h
  have hp : ¬ (b == Byte.plus) = true := by
    rintro hb
    obtain rfl : b = Byte.plus := by simpa using hb
    cases h
  rw [Operand.readNumber, if_neg hm, if_neg hp]

theorem readNumber_write (i : Int64) {t : Bytes}
    (ends : Bytes.EndsRun t) :
    Operand.readNumber (writeInteger i.toInt ++ t) = (.integer i.toInt, t) := by
  have hdigit : ∀ b ∈ t.head?, Byte.isDigit b = false := by
    intro b hb
    by_contra hd
    have hregular := Byte.isRegular_of_isDigit b (by simpa using hd)
    rw [ends b hb] at hregular
    cases hregular
  have hpoint : ∀ b ∈ t.head?, (b == Byte.dot) = false := by
    intro b hb
    have hne : b ≠ Byte.dot := by
      rintro rfl
      exact absurd (ends _ hb) (by decide)
    exact beq_false_of_ne hne
  have whole : Operand.readUnsigned (decide (i.toInt < 0)) (writeDigits i.toInt.natAbs ++ t) =
      (.integer i.toInt, t) := by
    rw [Operand.readUnsigned_whole (isDigit_writeDigits _) hdigit hpoint,
      ofWhole_writeDigits (inInt64_toInt i)]
  rw [writeInteger_eq]
  split_ifs with hi
  · have habs : i.toInt.toNat = i.toInt.natAbs := by omega
    have hsign : decide (i.toInt < 0) = false := by simpa using hi
    rw [habs]
    rw [hsign] at whole
    obtain ⟨d, ds, hds⟩ := List.exists_cons_of_ne_nil (writeDigits_ne_nil i.toInt.natAbs)
    have hd : Byte.isDigit d = true := isDigit_writeDigits i.toInt.natAbs d (by rw [hds]; simp)
    rw [hds, List.cons_append] at whole ⊢
    rw [readNumber_digit hd, whole]
  · have habs : (-i.toInt).toNat = i.toInt.natAbs := by omega
    have hsign : decide (i.toInt < 0) = true := by simpa using hi
    rw [habs]
    rw [hsign] at whole
    exact whole

def margin (spaced : Bool) : Bytes := if spaced then [Byte.space] else []

mutual

def write (spaced : Bool) : PlainOperand → Bytes
  | null => Bytes.ofUtf8 "null"
  | boolean true => Bytes.ofUtf8 "true"
  | boolean false => Bytes.ofUtf8 "false"
  | integer i => writeInteger i.toInt
  | name text => writeName text
  | literal bytes => writeLiteral bytes
  | hex bytes => writeHex bytes
  | array items =>
    Byte.openBracket ::
      (writeItems spaced (margin spaced) items ++ margin spaced ++ [Byte.closeBracket])
  | dictionary entries =>
    Byte.less :: Byte.less ::
      (writeEntries spaced (margin spaced) entries ++ margin spaced ++
        [Byte.greater, Byte.greater])

def writeItems (spaced : Bool) (lead : Bytes) : List PlainOperand → Bytes
  | [] => []
  | x :: xs => lead ++ write spaced x ++ writeItems spaced [Byte.space] xs

def writeEntries (spaced : Bool) (lead : Bytes) : List (String × PlainOperand) → Bytes
  | [] => []
  | (key, x) :: entries =>
    lead ++ writeName key ++ [Byte.space] ++ write spaced x ++
      writeEntries spaced [Byte.space] entries

end

end PlainOperand

namespace PlainToken

def toToken : PlainToken → Token
  | operand value => .operand value.toOperand
  | operator word => .operator word.text

def write (spaced : Bool) : PlainToken → Bytes
  | operand value => value.write spaced
  | operator word => Bytes.ofUtf8 word.text

def print (spaced : Bool) (tokens : List PlainToken) : Bytes :=
  [Byte.space].intercalate (tokens.map (write spaced))

end PlainToken

end PdfContent
