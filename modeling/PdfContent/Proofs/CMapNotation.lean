import Mathlib.Data.Nat.Digits.Defs
import PdfContent.Proofs.CMapLayout
import PdfContent.Proofs.TextUnits

/-!
Codes, texts and numbers as rows write them: digits of either case, with leading zeros or without,
codes and texts in angle brackets. Each is read back as what it spells.
-/

namespace PdfContent

namespace Numeral

def IsDigit (radix : Nat) (c : Char) (d : Nat) : Prop :=
  d < radix ∧ (c = d.digitChar ∨ c = d.digitChar.toUpper)

/-- Digits of a number, the highest first; zeros may stand before it. -/
def Spells (radix : Nat) (cs : List Char) (n : Nat) : Prop :=
  cs ≠ [] ∧ ∃ digits, List.Forall₂ (IsDigit radix) cs digits ∧
    Nat.ofDigits radix digits.reverse = n

def digitChars : List Char := "0123456789abcdefABCDEF".toList

variable {radix greatest n d : Nat} {c : Char} {cs : List Char}

theorem IsDigit.mem (h : IsDigit radix c d) (le : radix ≤ 16) : c ∈ digitChars := by
  have all : ∀ d < 16, d.digitChar ∈ digitChars ∧ d.digitChar.toUpper ∈ digitChars := by
    decide +kernel
  obtain ⟨lt, own⟩ := h
  have both := all d (by omega)
  cases own with
  | inl lower => exact lower ▸ both.1
  | inr upper => exact upper ▸ both.2

theorem digitValue?_of_isDigit (h : IsDigit radix c d) (le : radix ≤ 16) :
    digitValue? radix c = some d := by
  have all : ∀ d < 16, digitValue? 16 d.digitChar = some d ∧
      digitValue? 16 d.digitChar.toUpper = some d := by decide +kernel
  obtain ⟨lt, own⟩ := h
  have both := all d (by omega)
  have wide : digitValue? 16 c = some d := by
    cases own with
    | inl lower => exact lower ▸ both.1
    | inr upper => exact upper ▸ both.2
  simp only [digitValue?, Option.filter_eq_some_iff] at wide ⊢
  exact ⟨wide.1, by simpa using lt⟩

theorem Spells.mem (h : Spells radix cs n) (le : radix ≤ 16) : ∀ c ∈ cs, c ∈ digitChars := by
  obtain ⟨-, digits, own, -⟩ := h
  induction own with
  | nil => simp
  | cons digit _ ih => exact List.forall_mem_cons.2 ⟨digit.mem le, ih⟩

theorem spells_map_digitChar (digits : List Nat) (ne : digits ≠ []) (lt : ∀ d ∈ digits, d < radix) :
    Spells radix (digits.map Nat.digitChar) (Nat.ofDigits radix digits.reverse) := by
  refine ⟨by simpa using ne, digits, ?_, rfl⟩
  rw [List.forall₂_map_left_iff, List.forall₂_same]
  exact fun d hd => ⟨lt d hd, .inl rfl⟩

theorem ofDigits_reverse (radix : Nat) (digits : List Nat) :
    Nat.ofDigits radix digits.reverse = digits.foldl (fun v d => v * radix + d) 0 := by
  rw [Nat.ofDigits_eq_foldr, List.foldr_reverse]
  simp only [Nat.cast_id, Nat.mul_comm, Nat.add_comm]

theorem le_foldl_digits {digits : List Nat} (pos : 0 < radix) (value : Nat) :
    value ≤ digits.foldl (fun v d => v * radix + d) value := by
  induction digits generalizing value with
  | nil => exact Nat.le_refl value
  | cons d digits ih =>
    calc value ≤ value * radix := Nat.le_mul_of_pos_right value pos
      _ ≤ value * radix + d := Nat.le_add_right ..
      _ ≤ _ := ih (value * radix + d)

theorem extend_of_digits {digits : List Nat} (h : List.Forall₂ (IsDigit radix) cs digits)
    (radixLe : radix ≤ 16) (value : Nat)
    (le : digits.foldl (fun v d => v * radix + d) value ≤ greatest) :
    extend radix greatest value cs = .ok (digits.foldl (fun v d => v * radix + d) value) := by
  induction h generalizing value with
  | nil => rfl
  | @cons c d cs digits digit _ ih =>
    have pos : 0 < radix := Nat.zero_lt_of_lt digit.1
    have small : value * radix + d ≤ greatest := (le_foldl_digits pos _).trans le
    simp only [extend, digitValue?_of_isDigit digit radixLe, small, if_true, List.foldl_cons]
    exact ih _ le

theorem parse_cons (h : c ≠ '+') :
    parse radix greatest (c :: cs) = extend radix greatest 0 (c :: cs) := by
  unfold parse
  split
  · rename_i empty
    cases empty
  · rename_i sign
    exact absurd (List.cons.inj sign).1 h
  · rename_i sign
    exact absurd (List.cons.inj sign).1 h
  · rfl

theorem parse_of_spells (h : Spells radix cs n) (radixLe : radix ≤ 16) (le : n ≤ greatest) :
    parse radix greatest cs = .ok n := by
  have digit := h.mem radixLe
  obtain ⟨ne, digits, own, rfl⟩ := h
  rw [ofDigits_reverse] at le ⊢
  rw [← extend_of_digits own radixLe 0 le]
  cases cs with
  | nil => exact absurd rfl ne
  | cons c cs =>
    have plus : c ≠ '+' := by
      have apart : '+' ∉ digitChars := by decide
      intro same
      exact apart (same ▸ digit c (List.mem_cons_self ..))
    exact parse_cons plus

end Numeral

namespace CMap

open Numeral Text

def SpellsCode (hex : List Char) (code : Nat) : Prop :=
  Spells 16 hex code ∧ code < 0x100000000

inductive SpellsBytes : List Char → Bytes → Prop
  | nil : SpellsBytes [] []
  | cons {a b hex bytes} {byte : UInt8} (head : Spells 16 [a, b] byte.toNat)
      (tail : SpellsBytes hex bytes) : SpellsBytes (a :: b :: hex) (byte :: bytes)

def SpellsText (hex : List Char) (text : List Char) : Prop := SpellsBytes hex (Utf16.bytes text)

variable {hex text : List Char} {code : Nat} {bytes : Bytes}

theorem SpellsCode.mem (h : SpellsCode hex code) : ∀ c ∈ hex, c ∈ digitChars :=
  Spells.mem h.1 (Nat.le_refl 16)

theorem hexCode_of_spells (h : SpellsCode hex code) : hexCode hex = .ok code := by
  have small : code ≤ greatest32 := Nat.le_of_lt_succ h.2
  simp only [hexCode, parse_of_spells h.1 (Nat.le_refl 16) small]
  rfl

theorem SpellsBytes.mem (h : SpellsBytes hex bytes) : ∀ c ∈ hex, c ∈ digitChars := by
  induction h with
  | nil => simp
  | @cons a b _ _ _ head _ ih =>
    have two := head.mem (Nat.le_refl 16)
    exact List.forall_mem_cons.2 ⟨two a (by simp), List.forall_mem_cons.2 ⟨two b (by simp), ih⟩⟩

theorem SpellsBytes.length_eq (h : SpellsBytes hex bytes) : hex.length = 2 * bytes.length := by
  induction h with
  | nil => rfl
  | cons _ _ ih =>
    simp only [List.length_cons, ih]
    omega

theorem utf8Size_of_digit {c : Char} (h : c ∈ digitChars) : c.utf8Size = 1 := by
  have one : digitChars.all fun c => c.utf8Size = 1 := by decide +kernel
  exact of_decide_eq_true (List.all_eq_true.1 one c h)

theorem pairByte_of_spells (whole : List Char) {pair : List Char} {byte : UInt8}
    (h : Spells 16 pair byte.toNat) : pairByte whole pair = .ok byte := by
  have small : byte.toNat ≤ greatest8 := Nat.le_of_lt_succ byte.toNat_lt
  rw [pairByte, parse_of_spells h (Nat.le_refl 16) small]
  exact congrArg Except.ok UInt8.ofNat_toNat

theorem hexPairs_of_spells (whole : List Char) (h : SpellsBytes hex bytes) :
    hexPairs whole hex = .ok bytes := by
  induction h with
  | nil => rfl
  | @cons a b _ _ byte head _ ih =>
    have digits := head.mem (Nat.le_refl 16)
    have first : a.utf8Size = 1 := utf8Size_of_digit (digits a (by simp))
    have second : b.utf8Size = 1 := utf8Size_of_digit (digits b (by simp))
    simp only [hexPairs, first, second, pairByte_of_spells whole head, ih]
    rfl

theorem hexBytes_of_spells (h : SpellsBytes hex bytes) : hexBytes hex = .ok bytes := by
  have even : (hex.length % 2 != 0) = false := by
    have length := h.length_eq
    rw [bne_eq_false_iff_eq]
    omega
  have size : Utf8.size hex = hex.length :=
    Utf8.size_eq_length fun c hc => utf8Size_of_digit (h.mem c hc)
  simp only [hexBytes, size, even, hexPairs_of_spells hex h]
  rfl

theorem destination_of_spells (h : SpellsText hex text) : destination hex = .ok text := by
  have read : hexBytes hex = .ok (Utf16.bytes text) := hexBytes_of_spells h
  have decoded : Utf16.decode? (units (Utf16.bytes text)) = some text := by
    rw [Utf16.units_bytes, Utf16.decode?_encode]
  have length := Utf16.length_bytes text
  simp only [destination, read, bind, Except.bind]
  -- A single byte would be one character, but the bytes of a text come in pairs.
  split
  · rename_i single
    rw [single, List.length_singleton] at length
    omega
  · rw [decoded]
    rfl

theorem span?_eq (low high : Nat) :
    span? low high = if low ≤ high ∧ high - low ≤ 65535 then some (high - low) else none := by
  simp [span?, greatestSpan]

inductive Tokens : List Char → List (List Char) → Prop
  | nil {gap} (own : Gap gap) : Tokens gap []
  | cons {gap hex line hexes} (own : Gap gap) (tail : Tokens line hexes) :
      Tokens (gap ++ '<' :: (hex ++ '>' :: line)) (hex :: hexes)

def AllDigits (hexes : List (List Char)) : Prop := ∀ hex ∈ hexes, ∀ c ∈ hex, c ∈ digitChars

variable {line tail gap digits : List Char} {hexes : List (List Char)}

theorem AllDigits.nil : AllDigits [] := by simp [AllDigits]

theorem AllDigits.cons (head : ∀ c ∈ hex, c ∈ digitChars) (tail : AllDigits hexes) :
    AllDigits (hex :: hexes) :=
  List.forall_mem_cons.2 ⟨head, tail⟩

theorem Gap.not_mem {mark : Char} (h : Gap gap) (apart : mark ∉ gapChars) : mark ∉ gap :=
  fun mem => apart (h mark mem)

theorem not_mem_digits {mark : Char} (h : ∀ c ∈ hex, c ∈ digitChars) (apart : mark ∉ digitChars) :
    mark ∉ hex :=
  fun mem => apart (h mark mem)

theorem isBlank_of_gap (h : Gap gap) : ∀ c ∈ gap, isBlank c := by
  have all : gapChars.all isBlank := by decide
  exact fun c hc => List.all_eq_true.1 all c (h c hc)

theorem not_isBlank_of_digits (h : ∀ c ∈ hex, c ∈ digitChars) : ∀ c ∈ hex, isBlank c = false := by
  have all : digitChars.all fun c => !isBlank c := by decide +kernel
  intro c hc
  rw [← Bool.not_eq_true']
  exact List.all_eq_true.1 all c (h c hc)

theorem hexTokens_eq_nil (h : '<' ∉ line) : hexTokens line = [] := by
  rw [hexTokens]
  split
  · rfl
  · rename_i found
    rw [cut?_mark_eq_none h] at found
    cases found

theorem hexTokens_gap (h : Gap line) : hexTokens line = [] :=
  hexTokens_eq_nil (h.not_mem (by decide))

theorem hexTokens_cons (before : '<' ∉ gap) (inner : '>' ∉ hex) (rest : List Char) :
    hexTokens (gap ++ '<' :: (hex ++ '>' :: rest)) = trimChars hex :: hexTokens rest := by
  rw [hexTokens]
  split
  · rename_i none
    rw [cut?_mark before] at none
    cases none
  · rename_i found
    rw [cut?_mark before] at found
    cases found
    split
    · rename_i none
      rw [cut?_mark inner] at none
      cases none
    · rename_i found
      rw [cut?_mark inner] at found
      cases found
      rfl

theorem Tokens.hexTokens_eq (h : Tokens line hexes) (digit : AllDigits hexes)
    (behind : '<' ∉ tail) : hexTokens (line ++ tail) = hexes := by
  induction h with
  | nil own =>
    apply hexTokens_eq_nil
    rw [List.mem_append, not_or]
    exact ⟨own.not_mem (by decide), behind⟩
  | @cons gap hex line hexes own _ ih =>
    obtain ⟨hexDigit, others⟩ := List.forall_mem_cons.1 digit
    have rest := ih others
    have first := hexTokens_cons (own.not_mem (by decide)) (not_mem_digits hexDigit (by decide))
      (line ++ tail)
    rw [List.append_assoc, List.cons_append, List.append_assoc, List.cons_append, first, rest,
      trimChars_of_inner (not_isBlank_of_digits hexDigit)]

theorem Tokens.hexTokens_self (h : Tokens line hexes)
    (digit : AllDigits hexes) : hexTokens line = hexes := by
  have behind : '<' ∉ ([] : List Char) := by simp
  have whole := h.hexTokens_eq digit behind
  rwa [List.append_nil] at whole

def tokenChars : List Char := '<' :: '>' :: (gapChars ++ digitChars)

theorem Tokens.mem (h : Tokens line hexes) (digit : AllDigits hexes) :
    ∀ c ∈ line, c ∈ tokenChars := by
  induction h with
  | nil own =>
    intro c hc
    simp [tokenChars, own c hc]
  | @cons gap hex line hexes own _ ih =>
    obtain ⟨hexDigit, others⟩ := List.forall_mem_cons.1 digit
    have rest := ih others
    intro c hc
    simp only [List.mem_append, List.mem_cons] at hc
    rcases hc with hc | rfl | hc | rfl | hc
    · simp [tokenChars, own c hc]
    · simp [tokenChars]
    · simp [tokenChars, hexDigit c hc]
    · simp [tokenChars]
    · exact rest c hc

theorem tokenChars_not_mem : ∀ c ∈ tokenChars, c ∉ ['g', 'n', '\n', '\r'] := by
  have apart : tokenChars.all (· ∉ ['g', 'n', '\n', '\r']) := by decide +kernel
  exact fun c hc => of_decide_eq_true (List.all_eq_true.1 apart c hc)

theorem Tokens.plain (h : Tokens line hexes) (digit : AllDigits hexes) (ne : hexes ≠ []) :
    line ≠ [] ∧ PlainLine line := by
  refine ⟨?_, fun c hc => tokenChars_not_mem c (h.mem digit c hc)⟩
  cases h with
  | nil => exact absurd rfl ne
  | cons => simp

def Numbered (line : List Char) (hexes : List (List Char)) (n : Nat) : Prop :=
  ∃ front digits gap, line = front ++ digits ++ gap ∧ Tokens front hexes ∧ Spells 10 digits n ∧
    n < 0x100000000 ∧ Gap gap

theorem Tokens.exists_last (h : Tokens line hexes) (ne : hexes ≠ []) :
    ∃ before gap, line = before ++ '>' :: gap ∧ Gap gap := by
  induction h with
  | nil => exact absurd rfl ne
  | @cons gap hex line hexes _ own ih =>
    cases own with
    | nil last => exact ⟨gap ++ '<' :: hex, line, by simp, last⟩
    | cons gap' own' =>
      obtain ⟨before, last, whole, hlast⟩ := ih (by simp)
      exact ⟨gap ++ '<' :: (hex ++ '>' :: before), last, by rw [whole]; simp, hlast⟩

variable {n : Nat}

theorem Numbered.trailingNumber?_eq (h : Numbered line hexes n) (ne : hexes ≠ []) :
    trailingNumber? line = some n := by
  obtain ⟨front, digits, gap, rfl, tokens, spelled, small, own⟩ := h
  obtain ⟨before, last, rfl, hlast⟩ := tokens.exists_last ne
  have digit := spelled.mem (by decide)
  have behind : '>' ∉ last ++ digits ++ gap := by
    simp only [List.mem_append, not_or]
    exact ⟨⟨hlast.not_mem (by decide), not_mem_digits digit (by decide)⟩,
      own.not_mem (by decide)⟩
  have whole : before ++ '>' :: last ++ digits ++ gap =
      before ++ '>' :: (last ++ digits ++ gap) := by
    simp
  have bracket : '>' ∈ before ++ '>' :: (last ++ digits ++ gap) := by simp
  have trimmed : trimChars (last ++ digits ++ gap) = digits :=
    trimChars_append (isBlank_of_gap hlast) (isBlank_of_gap own) (not_isBlank_of_digits digit)
      spelled.1
  have read : parse 10 greatest32 digits = .ok n :=
    parse_of_spells spelled (by decide) (Nat.le_of_lt_succ small)
  rw [whole, trailingNumber?, if_pos bracket, afterLast_append before behind, trimmed, parse?, read]
  rfl

theorem Numbered.hexTokens_eq (h : Numbered line hexes n)
    (digit : AllDigits hexes) : hexTokens line = hexes := by
  obtain ⟨front, digits, gap, rfl, tokens, spelled, -, own⟩ := h
  have behind : '<' ∉ digits ++ gap := by
    rw [List.mem_append, not_or]
    exact ⟨not_mem_digits (spelled.mem (by decide)) (by decide), own.not_mem (by decide)⟩
  rw [List.append_assoc]
  exact tokens.hexTokens_eq digit behind

theorem Numbered.plain (h : Numbered line hexes n) (digit : AllDigits hexes) :
    line ≠ [] ∧ PlainLine line := by
  obtain ⟨front, digits, gap, rfl, tokens, spelled, -, own⟩ := h
  refine ⟨by simp [spelled.1], fun c hc => tokenChars_not_mem c ?_⟩
  simp only [List.mem_append] at hc
  rcases hc with (hc | hc) | hc
  · exact tokens.mem digit c hc
  · simp [tokenChars, spelled.mem (by decide) c hc]
  · simp [tokenChars, own c hc]

end CMap

end PdfContent
