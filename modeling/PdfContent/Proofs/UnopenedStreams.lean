import Mathlib.Data.List.Infix
import PdfContent.Proofs.RoundTrip

/-!
Streams that open nothing. Only strings, arrays, dictionaries and inline images can be broken off,
so a stream without the bytes that open one is read to its end, whatever else it holds. Of numbers
every run of digits, signs and points is made: each text that is split off has the form of an
integer or of a real, or has no digit at all and stands for zero.
-/

namespace PdfContent

namespace Operand

inductive Sign : Bytes → Bool → Prop
  | none : Sign [] false
  | plus : Sign [Byte.plus] false
  | minus : Sign [Byte.minus] true

def signed (negative : Bool) (magnitude : Nat) : Int := if negative then -magnitude else magnitude

/-- Texts of numbers and what they denote. The first three are texts that the parsers of integers
and of doubles take: a digit is there, and at most one point. -/
inductive WritesNumber : Bytes → Operand → Prop
  | integer {sign digits : Bytes} {negative : Bool} (before : Sign sign negative)
      (digit : ∀ b ∈ digits, Byte.isDigit b = true) (some : digits ≠ [])
      (fits : Decimal.inInt64 (signed negative (Decimal.ofDigits digits)) = true) :
      WritesNumber (sign ++ digits) (.integer (signed negative (Decimal.ofDigits digits)))
  | wide {sign digits : Bytes} {negative : Bool} (before : Sign sign negative)
      (digit : ∀ b ∈ digits, Byte.isDigit b = true) (some : digits ≠ [])
      (fits : Decimal.inInt64 (signed negative (Decimal.ofDigits digits)) = false) :
      WritesNumber (sign ++ digits) (.real (Decimal.nearest negative digits 0))
  | fraction {sign whole places : Bytes} {negative : Bool} (before : Sign sign negative)
      (digit : ∀ b ∈ whole ++ places, Byte.isDigit b = true) (some : whole ++ places ≠ []) :
      WritesNumber (sign ++ (whole ++ Byte.dot :: places))
        (.real (Decimal.nearest negative (whole ++ places) places.length))
  | point {sign : Bytes} {negative : Bool} (before : Sign sign negative) :
      WritesNumber (sign ++ [Byte.dot]) (.integer 0)
  | sign {sign : Bytes} {negative : Bool} (before : Sign sign negative) (some : sign ≠ []) :
      WritesNumber sign (.integer 0)

theorem ofWhole_eq (negative : Bool) (digits : Bytes) :
    ofWhole negative digits =
      if Decimal.inInt64 (signed negative (Decimal.ofDigits digits)) then
        .integer (signed negative (Decimal.ofDigits digits))
      else .real (Decimal.nearest negative digits 0) := rfl

theorem writes_ofWhole {sign digits : Bytes} {negative : Bool} (before : Sign sign negative)
    (digit : ∀ b ∈ digits, Byte.isDigit b = true) (some : sign ++ digits ≠ []) :
    WritesNumber (sign ++ digits) (ofWhole negative digits) := by
  cases digits with
  | nil =>
    rw [List.append_nil] at some ⊢
    have zero : ofWhole negative [] = .integer 0 := by cases negative <;> rfl
    rw [zero]
    exact .sign before some
  | cons d digits =>
    rw [ofWhole_eq]
    split_ifs with fits
    · exact .integer before digit (by simp) fits
    · exact .wide before digit (by simp) (by simpa using fits)

theorem writes_ofFraction {sign whole places : Bytes} {negative : Bool}
    (before : Sign sign negative) (digit : ∀ b ∈ whole ++ places, Byte.isDigit b = true) :
    WritesNumber (sign ++ (whole ++ Byte.dot :: places)) (ofFraction negative whole places) := by
  rw [ofFraction]
  split_ifs with none
  · obtain ⟨rfl, rfl⟩ : whole = [] ∧ places = [] := by simpa using none
    exact .point before
  · exact .fraction before digit (by simpa using none)

theorem readUnsigned_writes {sign : Bytes} {negative : Bool} (before : Sign sign negative)
    (s : Bytes) (some : sign ≠ [] ∨ (readUnsigned negative s).2 ≠ s) :
    ∃ text, s = text ++ (readUnsigned negative s).2 ∧
      WritesNumber (sign ++ text) (readUnsigned negative s).1 := by
  obtain ⟨x, r, rfl, hx, hr⟩ := Bytes.span_split Byte.isDigit s
  cases hp : Bytes.after? Byte.dot r with
  | some r' =>
    obtain rfl := Bytes.after?_eq_some.1 hp
    obtain ⟨y, q, rfl, hy, hq⟩ := Bytes.span_split Byte.isDigit r'
    rw [readUnsigned_fraction hx hy hq]
    refine ⟨x ++ Byte.dot :: y, by simp, writes_ofFraction before fun b hb => ?_⟩
    exact (List.mem_append.1 hb).elim (hx b) (hy b)
  | none =>
    rw [readUnsigned_whole hx hr (Bytes.after?_eq_none_iff.1 hp)] at some ⊢
    refine ⟨x, rfl, writes_ofWhole before hx ?_⟩
    rcases some with some | some
    · exact List.append_ne_nil_of_left_ne_nil some x
    · have read : x ≠ [] := by
        rintro rfl
        exact some rfl
      exact List.append_ne_nil_of_right_ne_nil sign read

theorem readNumber_writes {b : UInt8} (h : isNumberStart b = true) (s : Bytes) :
    ∃ text, b :: s = text ++ (readNumber (b :: s)).2 ∧
      WritesNumber text (readNumber (b :: s)).1 := by
  by_cases hm : (b == Byte.minus) = true
  · obtain rfl : b = Byte.minus := by simpa using hm
    obtain ⟨text, split, writes⟩ := readUnsigned_writes .minus s (.inl (by simp))
    exact ⟨Byte.minus :: text, congrArg _ split, writes⟩
  by_cases hp : (b == Byte.plus) = true
  · obtain rfl : b = Byte.plus := by simpa using hp
    obtain ⟨text, split, writes⟩ := readUnsigned_writes .plus s (.inl (by simp))
    exact ⟨Byte.plus :: text, congrArg _ split, writes⟩
  · simp only [readNumber, if_neg hm, if_neg hp]
    have start : (Byte.isDigit b || b == Byte.dot) = true := by
      simpa [isNumberStart, hm, hp] using h
    have shorter := readUnsigned_length_lt false b s start
    refine readUnsigned_writes .none (b :: s) (.inr fun same => ?_)
    rw [same] at shorter
    exact Nat.lt_irrefl _ shorter

end Operand

theorem skipBlank_suffix (s : Bytes) : skipBlank s <:+ s := by
  rcases skipBlank_split s with ⟨y, split, -⟩ | ⟨none, -⟩
  · exact ⟨y, split.symm⟩
  · rw [none]
    exact List.nil_suffix

/-- No byte that opens a string, an array or a dictionary, and no `BI`, which opens an image. -/
structure Bytes.Unopened (s : Bytes) : Prop where
  brackets : ∀ b ∈ s, b ∉ [Byte.openParen, Byte.less, Byte.openBracket]
  image : ¬ Bytes.ofLatin "BI" <:+: s

theorem Bytes.Unopened.suffix {s t : Bytes} (h : Bytes.Unopened s) (ht : t <:+ s) :
    Bytes.Unopened t where
  brackets b hb := h.brackets b (ht.subset hb)
  image hi := h.image (hi.trans ht.isInfix)

namespace Token

open Operand

theorem read_number {b : UInt8} (h : isNumberStart b = true) (s : Bytes) :
    Operand.read (b :: s) = .ok (readNumber (b :: s)) := by
  have step : readStep [] (b :: s) =
      .ok (.complete (readNumber (b :: s)).1, (readNumber (b :: s)).2) := readStart_number h [] s
  exact readWithin_of_step step

theorem readTokens_number {b : UInt8} (h : isNumberStart b = true) (s : Bytes) :
    readTokens b s = .ok ([.operand (readNumber (b :: s)).1], (readNumber (b :: s)).2) := by
  have start : Operand.isStart b = true := by simp [isStart, h]
  rw [readTokens_start start, read_number h]
  rfl

theorem read_unopened {b : UInt8} {s : Bytes} (h : Bytes.Unopened (b :: s))
    (start : Operand.isStart b = true) : ∃ v r, Operand.read (b :: s) = .ok (v, r) := by
  have free := h.brackets b (List.mem_cons_self ..)
  have all : ∀ b, Operand.isStart b = true →
      b ∉ [Byte.openParen, Byte.less, Byte.openBracket] →
      b = Byte.slash ∨ isNumberStart b = true :=
    Byte.forall_of_fin (by decide +kernel)
  rcases all b start free with rfl | number
  · have step : readStep [] (Byte.slash :: s) =
        .ok (.complete (.name (readName s).1), (readName s).2) := rfl
    exact ⟨_, _, readWithin_of_step step⟩
  · exact ⟨_, _, read_number number s⟩

theorem readTokens_unopened {b : UInt8} {s : Bytes} (h : Bytes.Unopened (b :: s)) :
    ∃ tokens r, readTokens b s = .ok (tokens, r) := by
  simp only [readTokens]
  split_ifs with lone greater word image start
  · exact ⟨_, _, rfl⟩
  · cases Bytes.after? Byte.greater s with
    | none => exact ⟨_, _, rfl⟩
    | some r => exact ⟨_, _, rfl⟩
  · have run : (spanRegular (b :: s)).1 <+: b :: s := List.takeWhile_prefix _
    rw [eq_of_beq image] at run
    exact absurd run.isInfix h.image
  · exact ⟨_, _, rfl⟩
  · obtain ⟨v, r, read⟩ := read_unopened h start
    rw [read]
    exact ⟨_, _, rfl⟩
  · exact ⟨_, _, rfl⟩

theorem exists_ofBytes_of_unopened {s : Bytes} (h : Bytes.Unopened s) :
    ∃ tokens, ofBytes s = .ok tokens := by
  fun_induction ofBytes s with
  | case1 => exact ⟨_, rfl⟩
  | case2 s b r behind fault failed =>
    have front : Bytes.Unopened (b :: r) := h.suffix (behind ▸ skipBlank_suffix s)
    obtain ⟨tokens, u, read⟩ := readTokens_unopened front
    rw [read] at failed
    cases failed
  | case3 s b r behind tokens u read ih =>
    have front : b :: r <:+ s := behind ▸ skipBlank_suffix s
    obtain ⟨x, split, -⟩ := readTokens_lexeme read
    have left : u <:+ b :: r := ⟨b :: x, (congrArg (b :: ·) split).symm⟩
    have rest : u <:+ s := left.trans front
    obtain ⟨others, others_read⟩ := ih (h.suffix rest)
    rw [others_read]
    exact ⟨_, rfl⟩

theorem ofBytes_numbers {s : Bytes} (h : ∀ b ∈ s, isNumberStart b = true) :
    ∃ numbers : List (Bytes × Operand), s = numbers.flatMap Prod.fst ∧
      (∀ number ∈ numbers, WritesNumber number.1 number.2) ∧
      ofBytes s = .ok (numbers.map (.operand ·.2)) := by
  induction hn : s.length using Nat.strong_induction_on generalizing s with
  | _ n ih =>
    cases s with
    | nil => exact ⟨[], rfl, by simp, ofBytes_nil skipBlank_nil⟩
    | cons b s =>
      have number := h b (List.mem_cons_self ..)
      obtain ⟨text, split, writes⟩ := readNumber_writes number s
      have token := readTokens_number number s
      have shorter := readTokens_length token
      generalize (readNumber (b :: s)).1 = v at *
      generalize (readNumber (b :: s)).2 = r at *
      obtain ⟨numbers, rfl, all, read⟩ := ih r.length (hn ▸ shorter)
        (fun c hc => h c (split ▸ List.mem_append_right text hc)) rfl
      have apart : skipBlank (b :: s) = b :: s :=
        skipBlank_of_not_isGap (isFirst_spec b (by simp [isFirst, isStart, number])).1 s
      refine ⟨(text, v) :: numbers, split, ?_, ?_⟩
      · exact List.forall_mem_cons.2 ⟨writes, all⟩
      · rw [ofBytes_cons apart token, read]
        rfl

/-- No stream without an opening byte fails, whatever the bytes. A number is read wherever an
operand may stand, and a stream of digits, signs and points is a run of numbers. -/
theorem ofBytes_unopened :
    (∀ s, Bytes.Unopened s → ∃ tokens, ofBytes s = .ok tokens) ∧
    (∀ opened b s, isNumberStart b = true → ∃ text v r, b :: s = text ++ r ∧
      WritesNumber text v ∧ readStart opened (b :: s) = .ok (place v opened, r)) ∧
    ∀ s, (∀ b ∈ s, isNumberStart b = true) →
      ∃ numbers : List (Bytes × Operand), s = numbers.flatMap Prod.fst ∧
        (∀ number ∈ numbers, WritesNumber number.1 number.2) ∧
        ofBytes s = .ok (numbers.map (.operand ·.2)) := by
  refine ⟨fun s h => exists_ofBytes_of_unopened h, fun opened b s h => ?_,
    fun s h => ofBytes_numbers h⟩
  obtain ⟨text, split, writes⟩ := readNumber_writes h s
  exact ⟨text, _, _, split, writes, readStart_number h opened s⟩

theorem ofBytes_unopened_garbage :
    let garbage := Bytes.ofLatin "]>>)\x7d+-..5 B I/#4\u0080ÿ~\x7b\x00%BT"
    let signs := Bytes.ofLatin "+-.5..-12"
    Bytes.Unopened garbage ∧ (∃ tokens, ofBytes garbage = .ok tokens) ∧
      (∀ b ∈ signs, isNumberStart b = true) ∧
      (∃ text v r, signs = text ++ r ∧ WritesNumber text v ∧
        readStart [.array []] signs = .ok (place v [.array []], r)) ∧
      ∃ numbers : List (Bytes × Operand), signs = numbers.flatMap Prod.fst ∧
        (∀ number ∈ numbers, WritesNumber number.1 number.2) ∧
        ofBytes signs = .ok (numbers.map (.operand ·.2)) := by
  intro garbage signs
  obtain ⟨streams, operands, numbers⟩ := ofBytes_unopened
  have unopened : Bytes.Unopened garbage := ⟨by decide +kernel, by decide +kernel⟩
  have numeric : ∀ b ∈ signs, isNumberStart b = true := by decide +kernel
  exact ⟨unopened, streams garbage unopened, numeric,
    operands [.array []] Byte.plus (Bytes.ofLatin "-.5..-12") (by decide), numbers signs numeric⟩

end Token

end PdfContent
