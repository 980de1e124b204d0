import Mathlib.Data.List.TakeWhile
import PdfContent.Token

/-!
How far the readers look. What is read depends on the bytes read and on how the bytes behind them
begin: another continuation with the same first byte, or with a blank, a comment or nothing at all,
is left over in the same way. For each reader the bytes read are split off once, and a reader that
calls another one takes over its split.
-/

namespace PdfContent

namespace Byte

def isGap (b : UInt8) : Bool := isBlank b || b == percent

theorem forall_of_fin {p : UInt8 → Prop} (h : ∀ n : Fin 256, p (UInt8.ofFin n)) (b : UInt8) :
    p b :=
  h b.toFin

theorem not_isRegular_of_isGap : ∀ b, isGap b = true → isRegular b = false :=
  forall_of_fin (by decide +kernel)

theorem isRegular_of_isDigit : ∀ b, isDigit b = true → isRegular b = true :=
  forall_of_fin (by decide +kernel)

theorem not_isDigit_of_isGap : ∀ b, isGap b = true → isDigit b = false :=
  forall_of_fin (by decide +kernel)

end Byte

namespace Bytes

/-- A continuation that begins as `r` does, or that separates. -/
def GoesOnAs (r t : Bytes) : Prop := t.head? = r.head? ∨ ∀ b ∈ t.head?, Byte.isGap b = true

theorem GoesOnAs.refl (r : Bytes) : GoesOnAs r r := .inl rfl

theorem GoesOnAs.of_ne_nil {x : Bytes} (h : x ≠ []) (r t : Bytes) :
    GoesOnAs (x ++ r) (x ++ t) := by
  obtain ⟨b, x, rfl⟩ := List.exists_cons_of_ne_nil h
  exact .inl rfl

theorem GoesOnAs.append {r t : Bytes} (h : GoesOnAs r t) (x : Bytes) :
    GoesOnAs (x ++ r) (x ++ t) := by
  cases x with
  | nil => exact h
  | cons b x => exact .inl rfl

theorem GoesOnAs.head_not {p : UInt8 → Bool} {r t : Bytes} (h : GoesOnAs r t)
    (gap : ∀ b, Byte.isGap b = true → p b = false) (hr : ∀ b ∈ r.head?, p b = false) :
    ∀ b ∈ t.head?, p b = false := by
  intro b hb
  rcases h with h | h
  · exact hr b (h ▸ hb)
  · exact gap b (h b hb)

theorem ne_nil_of_length_lt {x r : Bytes} (h : r.length < (x ++ r).length) : x ≠ [] := by
  rintro rfl
  exact Nat.lt_irrefl _ h

theorem span_append {p : UInt8 → Bool} {x t : Bytes} (hx : ∀ b ∈ x, p b = true)
    (ht : ∀ b ∈ t.head?, p b = false) :
    (x ++ t).takeWhile p = x ∧ (x ++ t).dropWhile p = t := by
  have hstop : t.takeWhile p = [] ∧ t.dropWhile p = t := by
    cases t with
    | nil => exact ⟨rfl, rfl⟩
    | cons b t =>
      have hb : p b = false := ht b rfl
      simp [hb]
  rw [List.takeWhile_append_of_pos hx, List.dropWhile_append_of_pos hx, hstop.1, hstop.2,
    List.append_nil]
  exact ⟨rfl, rfl⟩

theorem span_split (p : UInt8 → Bool) (s : Bytes) :
    ∃ x r, s = x ++ r ∧ (∀ b ∈ x, p b = true) ∧ ∀ b ∈ r.head?, p b = false := by
  refine ⟨s.takeWhile p, s.dropWhile p, List.takeWhile_append_dropWhile.symm,
    fun b hb => List.mem_takeWhile_imp hb, fun b hb => ?_⟩
  have := List.head?_dropWhile_not p s
  rw [Option.mem_def.1 hb] at this
  simpa using this

theorem span_lexeme {p : UInt8 → Bool} (gap : ∀ b, Byte.isGap b = true → p b = false) (s : Bytes)
    {t : Bytes} (ht : GoesOnAs (s.dropWhile p) t) :
    (s.takeWhile p ++ t).takeWhile p = s.takeWhile p ∧ (s.takeWhile p ++ t).dropWhile p = t := by
  obtain ⟨x, r, rfl, hx, hr⟩ := span_split p s
  obtain ⟨h₁, h₂⟩ := span_append hx hr
  rw [h₂] at ht
  rw [h₁]
  exact span_append hx (ht.head_not gap hr)

theorem after?_self (b : UInt8) (s : Bytes) : after? b (b :: s) = some s :=
  after?_eq_some.2 rfl

theorem after?_eq_none_iff {b : UInt8} {s : Bytes} :
    after? b s = none ↔ ∀ c ∈ s.head?, (c == b) = false := by
  cases s with
  | nil => simp [after?]
  | cons c s => by_cases h : c = b <;> simp [after?, h]

end Bytes

open Bytes (GoesOnAs)

/-- Blanks and whole comments: nothing behind them is part of a comment inside. -/
def Gap (y : Bytes) : Prop := ∀ t, skipBlank (y ++ t) = skipBlank t

@[simp]
theorem skipBlank_nil : skipBlank [] = [] := by
  rw [skipBlank]

theorem skipBlank_of_not_isGap {b : UInt8} (h : Byte.isGap b = false) (s : Bytes) :
    skipBlank (b :: s) = b :: s := by
  simp only [Byte.isGap, Bool.or_eq_false_iff] at h
  rw [skipBlank, if_neg (by simp [h.1]), if_neg (by simp [h.2])]

theorem skipBlank_of_isBlank {b : UInt8} (h : Byte.isBlank b = true) (s : Bytes) :
    skipBlank (b :: s) = skipBlank s := by
  rw [skipBlank, if_pos h]

theorem skipBlank_comment (s : Bytes) :
    skipBlank (Byte.percent :: s) = skipBlank (skipComment s) := by
  rw [skipBlank, if_neg (by decide), if_pos (by decide)]

theorem skipBlank_start {s r : Bytes} {b : UInt8} (h : skipBlank s = b :: r) :
    Byte.isGap b = false := by
  fun_induction skipBlank s with
  | case1 => cases h
  | case2 c s _ ih => exact ih h
  | case3 c s _ _ ih => exact ih h
  | case4 c s hb hp =>
    cases h
    simp only [Byte.isGap, Bool.or_eq_false_iff]
    exact ⟨by simpa using hb, by simpa using hp⟩

theorem Gap.nil : Gap [] := fun _ => rfl

theorem Gap.blank {b : UInt8} (h : Byte.isBlank b = true) {y : Bytes} (hy : Gap y) :
    Gap (b :: y) := by
  intro t
  rw [List.cons_append, skipBlank_of_isBlank h, hy t]

theorem skipComment_append {c : Bytes} (hc : ∀ b ∈ c, Byte.isLineEnd b = false) (t : Bytes) :
    skipComment (c ++ t) = skipComment t :=
  List.dropWhile_append_of_pos (fun b hb => by rw [hc b hb]; rfl)

theorem skipComment_lineEnd {e : UInt8} (he : Byte.isLineEnd e = true) (t : Bytes) :
    skipComment (e :: t) = e :: t :=
  List.dropWhile_cons_of_neg (by simp [he])

theorem skipComment_split (s : Bytes) :
    ∃ c, s = c ++ skipComment s ∧ (∀ b ∈ c, Byte.isLineEnd b = false) ∧
      ∀ b ∈ (skipComment s).head?, Byte.isLineEnd b = true := by
  obtain ⟨c, r, rfl, hc, hr⟩ := Bytes.span_split (fun b => !Byte.isLineEnd b) s
  have hs : skipComment (c ++ r) = r := (Bytes.span_append hc hr).2
  rw [hs]
  exact ⟨c, rfl, fun b hb => by simpa using hc b hb, fun b hb => by simpa using hr b hb⟩

theorem isBlank_of_isLineEnd {b : UInt8} (h : Byte.isLineEnd b = true) :
    Byte.isBlank b = true := by
  simp only [Byte.isLineEnd, Bool.or_eq_true, beq_iff_eq] at h
  rcases h with rfl | rfl <;> decide

theorem Gap.comment {c y : Bytes} {e : UInt8} (hc : ∀ b ∈ c, Byte.isLineEnd b = false)
    (he : Byte.isLineEnd e = true) (hy : Gap (e :: y)) : Gap (Byte.percent :: c ++ e :: y) := by
  intro t
  rw [List.append_assoc, List.cons_append, List.cons_append, skipBlank_comment,
    skipComment_append hc, skipComment_lineEnd he]
  exact hy t

/-- A gap whose last line is a comment without an end. -/
structure OpenGap (s before comment : Bytes) : Prop where
  split : s = before ++ Byte.percent :: comment
  before : Gap before
  comment : ∀ b ∈ comment, Byte.isLineEnd b = false

/-- Where tokens begin behind a gap; a gap at the end may hold an open comment. -/
theorem skipBlank_split (s : Bytes) :
    (∃ y, s = y ++ skipBlank s ∧ Gap y) ∨ (skipBlank s = [] ∧ ∃ y c, OpenGap s y c) := by
  fun_induction skipBlank s with
  | case1 => exact .inl ⟨[], rfl, Gap.nil⟩
  | case2 b s hb ih =>
    rcases ih with ⟨y, hs, hy⟩ | ⟨hs, y, c, ho⟩
    · exact .inl ⟨b :: y, congrArg _ hs, hy.blank hb⟩
    · exact .inr ⟨hs, b :: y, c, congrArg _ ho.split, ho.before.blank hb, ho.comment⟩
  | case3 b s hb hp ih =>
    obtain rfl : b = Byte.percent := by simpa using hp
    obtain ⟨c, hs, hc, he⟩ := skipComment_split s
    generalize skipComment s = r at *
    cases r with
    | nil =>
      rw [List.append_nil] at hs
      exact .inr ⟨skipBlank_nil, [], s, rfl, Gap.nil, hs ▸ hc⟩
    | cons e r =>
      have he : Byte.isLineEnd e = true := he e rfl
      -- What ends the line is a blank, so the gap that follows is not empty.
      rcases ih with ⟨y, hr, hy⟩ | ⟨hn, y, d, ho⟩
      · cases y with
        | nil =>
          have hgap := skipBlank_start (s := e :: r) (b := e) (r := r) hr.symm
          simp [Byte.isGap, isBlank_of_isLineEnd he] at hgap
        | cons e' y =>
          obtain rfl : e = e' := by injection hr
          refine .inl ⟨Byte.percent :: c ++ e :: y, ?_, hy.comment hc he⟩
          rw [hs, List.append_assoc, ← hr]
          rfl
      · cases y with
        | nil =>
          obtain rfl : e = Byte.percent := by injection ho.split
          cases he
        | cons e' y =>
          obtain rfl : e = e' := by injection ho.split
          refine .inr ⟨hn, Byte.percent :: c ++ e :: y, d, ?_, ho.before.comment hc he, ho.comment⟩
          rw [hs, List.append_assoc, ← ho.split]
          rfl
  | case4 b s hb hp => exact .inl ⟨[], rfl, Gap.nil⟩

theorem skipBlank_lexeme {s r : Bytes} {b : UInt8} (h : skipBlank s = b :: r) :
    ∃ y, s = y ++ b :: r ∧ ∀ t, skipBlank (y ++ b :: t) = b :: t := by
  rcases skipBlank_split s with ⟨y, hs, hy⟩ | ⟨hn, -⟩
  · refine ⟨y, h ▸ hs, fun t => ?_⟩
    rw [hy, skipBlank_of_not_isGap (skipBlank_start h)]
  · rw [hn] at h
    cases h

namespace Operand

theorem spanRegular_lexeme (s : Bytes) {t : Bytes} (ht : GoesOnAs (spanRegular s).2 t) :
    spanRegular ((spanRegular s).1 ++ t) = ((spanRegular s).1, t) := by
  obtain ⟨h₁, h₂⟩ := Bytes.span_lexeme Byte.not_isRegular_of_isGap s ht
  exact Prod.ext h₁ h₂

theorem spanRegular_cons {b : UInt8} (h : Byte.isRegular b = true) (s : Bytes) :
    spanRegular (b :: s) = (b :: (spanRegular s).1, (spanRegular s).2) := by
  simp [spanRegular, h]

theorem readName_lexeme (s : Bytes) :
    ∃ x, s = x ++ (readName s).2 ∧
      ∀ t, GoesOnAs (readName s).2 t → readName (x ++ t) = ((readName s).1, t) := by
  refine ⟨(spanRegular s).1, List.takeWhile_append_dropWhile.symm, fun t ht => ?_⟩
  rw [readName, spanRegular_lexeme s ht]
  rfl

theorem readOctal_lexeme (n v : Nat) (s : Bytes) :
    ∃ x, s = x ++ (readOctal n v s).2 ∧ ∀ t, t.head? = (readOctal n v s).2.head? →
      readOctal n v (x ++ t) = ((readOctal n v s).1, t) := by
  fun_induction readOctal n v s with
  | case1 v s => exact ⟨[], rfl, fun t _ => by simp [readOctal]⟩
  | case2 n v =>
    refine ⟨[], rfl, fun t ht => ?_⟩
    rw [List.head?_eq_none_iff.1 ht]
    simp [readOctal]
  | case3 n v d s hd ih =>
    obtain ⟨x, hs, hx⟩ := ih
    refine ⟨d :: x, congrArg _ hs, fun t ht => ?_⟩
    rw [List.cons_append, readOctal, if_pos hd, hx t ht]
  | case4 n v d s hd =>
    refine ⟨[], rfl, fun t ht => ?_⟩
    obtain ⟨t', rfl⟩ := List.head?_eq_some_iff.1 ht
    simp [readOctal, hd]

theorem readEscape_cases (e : UInt8) :
    (∃ v, ∀ s, readEscape e s = (v, s)) ∨ e = Byte.carriageReturn ∨
      ∀ s, readEscape e s = ([(readOctal 2 (Byte.digitValue e) s).1.toUInt8],
        (readOctal 2 (Byte.digitValue e) s).2) := by
  by_cases hr : e = Byte.carriageReturn
  · exact .inr (.inl hr)
  have hr' : (e == Byte.carriageReturn) = false := beq_false_of_ne hr
  by_cases hn : e ∈ [0x6E, 0x72, 0x74, 0x62, 0x66, Byte.lineFeed]
  · simp only [List.mem_cons, List.not_mem_nil, or_false] at hn
    rcases hn with rfl | rfl | rfl | rfl | rfl | rfl <;> exact .inl ⟨_, fun s => rfl⟩
  · simp only [List.mem_cons, List.not_mem_nil, or_false, not_or] at hn
    obtain ⟨h₁, h₂, h₃, h₄, h₅, h₆⟩ := hn
    cases ho : Byte.isOctal e with
    | true => exact .inr (.inr fun s => by simp [readEscape, *])
    | false => exact .inl ⟨[e], fun s => by simp [readEscape, *]⟩

theorem readEscape_return (s : Bytes) :
    readEscape Byte.carriageReturn s = ([], (Bytes.after? Byte.lineFeed s).getD s) := by
  cases h : Bytes.after? Byte.lineFeed s <;> simp [readEscape, h, Byte.carriageReturn]

theorem readEscape_lexeme (e : UInt8) (s : Bytes) :
    ∃ x, s = x ++ (readEscape e s).2 ∧ ∀ t, t.head? = (readEscape e s).2.head? →
      readEscape e (x ++ t) = ((readEscape e s).1, t) := by
  rcases readEscape_cases e with ⟨v, hv⟩ | rfl | ho
  · exact ⟨[], by rw [hv]; rfl, fun t _ => by rw [hv, hv]; rfl⟩
  · rw [readEscape_return]
    cases hs : Bytes.after? Byte.lineFeed s with
    | some r =>
      refine ⟨[Byte.lineFeed], Bytes.after?_eq_some.1 hs, fun t _ => ?_⟩
      rw [readEscape_return, List.singleton_append, Bytes.after?_self]
      rfl
    | none =>
      refine ⟨[], rfl, fun t ht => ?_⟩
      have hn : Bytes.after? Byte.lineFeed t = none := by
        rw [Bytes.after?_eq_none_iff] at hs ⊢
        exact ht ▸ hs
      rw [readEscape_return, List.nil_append, hn]
      rfl
  · obtain ⟨x, hs, hx⟩ := readOctal_lexeme 2 (Byte.digitValue e) s
    rw [ho]
    exact ⟨x, hs, fun t ht => by rw [ho, hx t ht]⟩

theorem readLiteral_open (depth : Nat) (s : Bytes) :
    readLiteral depth (Byte.openParen :: s) =
      (readLiteral (depth + 1) s).map fun r => (Byte.openParen :: r.1, r.2) := by
  rw [readLiteral.eq_def]
  rfl

theorem readLiteral_close (s : Bytes) :
    readLiteral 0 (Byte.closeParen :: s) = some ([], s) := by
  rw [readLiteral.eq_def]
  rfl

theorem readLiteral_close_inner (depth : Nat) (s : Bytes) :
    readLiteral (depth + 1) (Byte.closeParen :: s) =
      (readLiteral depth s).map fun r => (Byte.closeParen :: r.1, r.2) := by
  rw [readLiteral.eq_def]
  rfl

theorem readLiteral_escape (depth : Nat) (e : UInt8) (s : Bytes) :
    readLiteral depth (Byte.backslash :: e :: s) =
      (readLiteral depth (readEscape e s).2).map fun r => ((readEscape e s).1 ++ r.1, r.2) := by
  rw [readLiteral.eq_def]
  rfl

theorem readLiteral_plain {b : UInt8} (hopen : ¬ (b == Byte.openParen) = true)
    (hclose : ¬ (b == Byte.closeParen) = true) (hescape : ¬ (b == Byte.backslash) = true)
    (depth : Nat) (s : Bytes) :
    readLiteral depth (b :: s) = (readLiteral depth s).map fun r => (b :: r.1, r.2) := by
  rw [readLiteral.eq_def]
  simp only [if_neg hopen, if_neg hclose, if_neg hescape]

theorem readLiteral_lexeme {depth : Nat} {s v r : Bytes} (h : readLiteral depth s = some (v, r)) :
    ∃ x, s = x ++ r ∧ ∀ t, readLiteral depth (x ++ t) = some (v, t) := by
  fun_induction readLiteral depth s generalizing v r with
  | case1 => cases h
  | case2 depth b s hb ih =>
    obtain rfl : b = Byte.openParen := by simpa using hb
    obtain ⟨⟨v', r'⟩, hr, he⟩ := Option.map_eq_some_iff.1 h
    obtain ⟨rfl, rfl⟩ := Prod.mk.inj he
    obtain ⟨x, rfl, hx⟩ := ih hr
    refine ⟨Byte.openParen :: x, rfl, fun t => ?_⟩
    rw [List.cons_append, readLiteral_open, hx t]
    rfl
  | case3 b s hb hc =>
    obtain rfl : b = Byte.closeParen := by simpa using hc
    cases h
    exact ⟨[Byte.closeParen], rfl, readLiteral_close⟩
  | case4 b s hb hc depth ih =>
    obtain rfl : b = Byte.closeParen := by simpa using hc
    obtain ⟨⟨v', r'⟩, hr, he⟩ := Option.map_eq_some_iff.1 h
    obtain ⟨rfl, rfl⟩ := Prod.mk.inj he
    obtain ⟨x, rfl, hx⟩ := ih hr
    refine ⟨Byte.closeParen :: x, rfl, fun t => ?_⟩
    rw [List.cons_append, readLiteral_close_inner, hx t]
    rfl
  | case5 => cases h
  | case6 depth b hb hc hd e s escape =>
    rename_i ih
    obtain rfl : b = Byte.backslash := by simpa using hd
    obtain ⟨⟨v', r'⟩, hr, he⟩ := Option.map_eq_some_iff.1 h
    obtain ⟨rfl, rfl⟩ := Prod.mk.inj he
    obtain ⟨x, hs, hx⟩ := ih hr
    obtain ⟨y, hy, hesc⟩ := readEscape_lexeme e s
    have hne : x ≠ [] := Bytes.ne_nil_of_length_lt (hs ▸ readLiteral_length hr)
    refine ⟨Byte.backslash :: e :: (y ++ x), ?_, fun t => ?_⟩
    · change _ = Byte.backslash :: e :: (y ++ x ++ r')
      rw [List.append_assoc, ← hs, ← hy]
    · have hhead : (x ++ t).head? = escape.2.head? := by
        obtain ⟨c, x, rfl⟩ := List.exists_cons_of_ne_nil hne
        rw [hs]
        rfl
      rw [List.cons_append, List.cons_append, List.append_assoc, readLiteral_escape,
        hesc (x ++ t) hhead, hx t]
      rfl
  | case7 depth b s hb hc hd ih =>
    obtain ⟨⟨v', r'⟩, hr, he⟩ := Option.map_eq_some_iff.1 h
    obtain ⟨rfl, rfl⟩ := Prod.mk.inj he
    obtain ⟨x, rfl, hx⟩ := ih hr
    refine ⟨b :: x, rfl, fun t => ?_⟩
    rw [List.cons_append, readLiteral_plain hb hc hd, hx t]
    rfl

theorem readHex_close (high : Option Nat) (s : Bytes) :
    readHex high (Byte.greater :: s) = .ok (high.toList.map fun h => (h * 16).toUInt8, s) := by
  cases high <;> rfl

theorem readHex_blank {b : UInt8} (hb : ¬ (b == Byte.greater) = true)
    (blank : Byte.isBlank b = true) (high : Option Nat) (s : Bytes) :
    readHex high (b :: s) = readHex high s := by
  rw [readHex.eq_def]
  simp only [if_neg hb, if_pos blank]

theorem readHex_first {b : UInt8} (hb : ¬ (b == Byte.greater) = true)
    (blank : ¬ Byte.isBlank b = true) {v : Nat} (hv : Byte.hexValue b = some v) (s : Bytes) :
    readHex none (b :: s) = readHex (some v) s := by
  rw [readHex.eq_def]
  simp only [if_neg hb, if_neg blank, hv]

theorem readHex_second {b : UInt8} (hb : ¬ (b == Byte.greater) = true)
    (blank : ¬ Byte.isBlank b = true) {v : Nat} (hv : Byte.hexValue b = some v) (h : Nat)
    (s : Bytes) :
    readHex (some h) (b :: s) =
      (readHex none s).map fun r => ((h * 16 + v).toUInt8 :: r.1, r.2) := by
  rw [readHex.eq_def]
  simp only [if_neg hb, if_neg blank, hv]

theorem readHex_lexeme {high : Option Nat} {s v r : Bytes} (h : readHex high s = .ok (v, r)) :
    ∃ x, s = x ++ r ∧ ∀ t, readHex high (x ++ t) = .ok (v, t) := by
  fun_induction readHex high s generalizing v r with
  | case1 => cases h
  | case2 b s hb h' =>
    obtain rfl : b = Byte.greater := by simpa using hb
    cases h
    exact ⟨[Byte.greater], rfl, readHex_close _⟩
  | case3 b s hb =>
    obtain rfl : b = Byte.greater := by simpa using hb
    cases h
    exact ⟨[Byte.greater], rfl, readHex_close _⟩
  | case4 high b s hb hw ih =>
    obtain ⟨x, rfl, hx⟩ := ih h
    refine ⟨b :: x, rfl, fun t => ?_⟩
    rw [List.cons_append, readHex_blank hb hw, hx t]
  | case5 => cases h
  | case6 b s hb hw v' hv ih =>
    obtain ⟨x, rfl, hx⟩ := ih h
    refine ⟨b :: x, rfl, fun t => ?_⟩
    rw [List.cons_append, readHex_first hb hw hv, hx t]
  | case7 b s hb hw v' h' hv ih =>
    obtain ⟨⟨v'', r'⟩, hr, he⟩ := map_eq_ok h
    obtain ⟨rfl, rfl⟩ := Prod.mk.inj he
    obtain ⟨x, rfl, hx⟩ := ih hr
    refine ⟨b :: x, rfl, fun t => ?_⟩
    rw [List.cons_append, readHex_second hb hw hv, hx t]
    rfl

theorem readUnsigned_whole {negative : Bool} {x t : Bytes} (hx : ∀ b ∈ x, Byte.isDigit b = true)
    (digit : ∀ b ∈ t.head?, Byte.isDigit b = false)
    (point : ∀ b ∈ t.head?, (b == Byte.dot) = false) :
    readUnsigned negative (x ++ t) = (ofWhole negative x, t) := by
  obtain ⟨h₁, h₂⟩ := Bytes.span_append hx digit
  simp only [readUnsigned, h₁, h₂, Bytes.after?_eq_none_iff.2 point]

theorem readUnsigned_fraction {negative : Bool} {x y t : Bytes}
    (hx : ∀ b ∈ x, Byte.isDigit b = true) (hy : ∀ b ∈ y, Byte.isDigit b = true)
    (digit : ∀ b ∈ t.head?, Byte.isDigit b = false) :
    readUnsigned negative (x ++ Byte.dot :: (y ++ t)) = (ofFraction negative x y, t) := by
  have hdot : ∀ b ∈ (Byte.dot :: (y ++ t)).head?, Byte.isDigit b = false := by
    rintro b ⟨⟩
    decide
  obtain ⟨h₁, h₂⟩ := Bytes.span_append hx hdot
  obtain ⟨h₃, h₄⟩ := Bytes.span_append hy digit
  simp only [readUnsigned, h₁, h₂, Bytes.after?_self, h₃, h₄]

theorem readUnsigned_lexeme (negative : Bool) (s : Bytes) :
    ∃ x, s = x ++ (readUnsigned negative s).2 ∧ ∀ t, GoesOnAs (readUnsigned negative s).2 t →
      readUnsigned negative (x ++ t) = ((readUnsigned negative s).1, t) := by
  have gap := Byte.not_isDigit_of_isGap
  obtain ⟨x, r, rfl, hx, hr⟩ := Bytes.span_split Byte.isDigit s
  cases hp : Bytes.after? Byte.dot r with
  | some r' =>
    obtain rfl := Bytes.after?_eq_some.1 hp
    obtain ⟨y, q, rfl, hy, hq⟩ := Bytes.span_split Byte.isDigit r'
    rw [readUnsigned_fraction hx hy hq]
    refine ⟨x ++ Byte.dot :: y, by simp, fun t ht => ?_⟩
    rw [List.append_assoc, List.cons_append,
      readUnsigned_fraction hx hy (ht.head_not gap hq)]
  | none =>
    have point := Bytes.after?_eq_none_iff.1 hp
    rw [readUnsigned_whole hx hr point]
    refine ⟨x, rfl, fun t ht => ?_⟩
    refine readUnsigned_whole hx (ht.head_not gap hr) (ht.head_not ?_ point)
    intro b hb
    by_contra hne
    obtain rfl : b = Byte.dot := by simpa using hne
    exact absurd hb (by decide)

theorem readNumber_lexeme {b : UInt8} {s : Bytes} (h : isNumberStart b = true) :
    ∃ x, s = x ++ (readNumber (b :: s)).2 ∧ ∀ t, GoesOnAs (readNumber (b :: s)).2 t →
      readNumber (b :: (x ++ t)) = ((readNumber (b :: s)).1, t) := by
  by_cases hm : (b == Byte.minus) = true
  · simp only [readNumber, if_pos hm]
    exact readUnsigned_lexeme true s
  by_cases hp : (b == Byte.plus) = true
  · simp only [readNumber, if_neg hm, if_pos hp]
    exact readUnsigned_lexeme false s
  · simp only [readNumber, if_neg hm, if_neg hp]
    have hstart : (Byte.isDigit b || b == Byte.dot) = true := by
      simpa [isNumberStart, hm, hp] using h
    obtain ⟨x, hs, hx⟩ := readUnsigned_lexeme false (b :: s)
    have hlt := readUnsigned_length_lt false b s hstart
    generalize (readUnsigned false (b :: s)).1 = v at *
    generalize (readUnsigned false (b :: s)).2 = r at *
    cases x with
    | nil =>
      rw [hs] at hlt
      exact absurd hlt (Nat.lt_irrefl _)
    | cons b' x =>
      obtain ⟨rfl, rfl⟩ := List.cons.inj hs
      exact ⟨x, rfl, hx⟩

theorem readStart_lexeme {opened : List Opened} {b : UInt8} {s r : Bytes} {p : Progress}
    (h : readStart opened (b :: s) = .ok (p, r)) :
    ∃ x, s = x ++ r ∧ ∀ t, GoesOnAs r t → readStart opened (b :: (x ++ t)) = .ok (p, t) := by
  simp only [readStart] at h ⊢
  split_ifs at h ⊢ with h₁ h₂ h₃ h₄ h₅ h₆
  · split at h
    · rename_i v r' hr
      simp only [Except.ok.injEq, Prod.mk.injEq] at h
      obtain ⟨rfl, rfl⟩ := h
      obtain ⟨x, rfl, hx⟩ := readLiteral_lexeme hr
      exact ⟨x, rfl, fun t _ => by rw [hx t]⟩
    · cases h
  · split at h
    · rename_i r' hr
      simp only [Except.ok.injEq, Prod.mk.injEq] at h
      obtain ⟨rfl, rfl⟩ := h
      refine ⟨[Byte.less], Bytes.after?_eq_some.1 hr, fun t _ => ?_⟩
      rw [List.singleton_append, Bytes.after?_self]
    · rename_i hn
      obtain ⟨⟨v, r'⟩, hr, he⟩ := map_eq_ok h
      obtain ⟨rfl, rfl⟩ := Prod.mk.inj he
      obtain ⟨x, rfl, hx⟩ := readHex_lexeme hr
      refine ⟨x, rfl, fun t _ => ?_⟩
      have hne : x ≠ [] := Bytes.ne_nil_of_length_lt (readHex_length hr)
      obtain ⟨c, x, rfl⟩ := List.exists_cons_of_ne_nil hne
      have hn' : Bytes.after? Byte.less (c :: x ++ t) = none := by
        rw [Bytes.after?_eq_none_iff] at hn ⊢
        exact hn
      rw [hn']
      dsimp only
      rw [hx t]
      rfl
  · simp only [Except.ok.injEq, Prod.mk.injEq] at h
    obtain ⟨rfl, rfl⟩ := h
    exact ⟨[], rfl, fun t _ => rfl⟩
  · simp only [Except.ok.injEq, Prod.mk.injEq] at h
    obtain ⟨rfl, rfl⟩ := h
    obtain ⟨x, hs, hx⟩ := readName_lexeme s
    exact ⟨x, hs, fun t ht => by rw [hx t ht]⟩
  · simp only [Except.ok.injEq, Prod.mk.injEq] at h
    obtain ⟨rfl, rfl⟩ := h
    obtain ⟨x, hs, hx⟩ := readNumber_lexeme (s := s) h₅
    exact ⟨x, hs, fun t ht => by rw [hx t ht]⟩
  · simp only [Except.ok.injEq, Prod.mk.injEq] at h
    obtain ⟨rfl, rfl⟩ := h
    have hb : Byte.isRegular b = true := isRegular_of_isWordStart h₆
    refine ⟨(spanRegular s).1, ?_, fun t ht => ?_⟩
    · rw [spanRegular_cons hb]
      exact List.takeWhile_append_dropWhile.symm
    · rw [spanRegular_cons hb] at ht ⊢
      rw [spanRegular_cons hb, spanRegular_lexeme s ht]

theorem readStep_array_lexeme {items : List Operand} {rest : List Opened} {s r : Bytes}
    {p : Progress} (h : readStep (.array items :: rest) s = .ok (p, r)) :
    ∃ x, s = x ++ r ∧
      ∀ t, GoesOnAs r t → readStep (.array items :: rest) (x ++ t) = .ok (p, t) := by
  simp only [readStep] at h
  split at h
  · cases h
  rename_i b s' hs
  obtain ⟨y, rfl, hy⟩ := skipBlank_lexeme hs
  split at h
  · rename_i hb
    cases h
    refine ⟨y ++ [b], by simp, fun t _ => ?_⟩
    rw [List.append_assoc, List.singleton_append]
    simp only [readStep, hy, if_pos hb]
  · rename_i hb
    obtain ⟨x, rfl, hx⟩ := readStart_lexeme h
    refine ⟨y ++ b :: x, by simp, fun t ht => ?_⟩
    rw [List.append_assoc, List.cons_append]
    simp only [readStep, hy, if_neg hb]
    exact hx t ht

theorem readStep_dictionary_lexeme {entries : List (String × Operand)} {rest : List Opened}
    {s r : Bytes} {p : Progress} (h : readStep (.dictionary entries :: rest) s = .ok (p, r)) :
    ∃ x, s = x ++ r ∧
      ∀ t, GoesOnAs r t → readStep (.dictionary entries :: rest) (x ++ t) = .ok (p, t) := by
  simp only [readStep] at h
  split at h
  · cases h
  rename_i b s' hs
  obtain ⟨y, rfl, hy⟩ := skipBlank_lexeme hs
  split_ifs at h with hb hg
  · cases h
    obtain ⟨x, hs', hx⟩ := readName_lexeme s'
    refine ⟨y ++ b :: x, ?_, fun t ht => ?_⟩
    · rw [List.append_assoc, List.cons_append, ← hs']
    · rw [List.append_assoc, List.cons_append]
      simp only [readStep, hy, if_pos hb, hx t ht]
  · split at h
    · rename_i s'' hs'
      cases h
      obtain rfl := Bytes.after?_eq_some.1 hs'
      refine ⟨y ++ [b, Byte.greater], by simp, fun t _ => ?_⟩
      rw [List.append_assoc, List.cons_append, List.singleton_append]
      simp only [readStep, hy, if_neg hb, if_pos hg, Bytes.after?_self]
    · cases h

theorem readStep_entry_lexeme {entries : List (String × Operand)} {key : String}
    {rest : List Opened} {s r : Bytes} {p : Progress}
    (h : readStep (.entry entries key :: rest) s = .ok (p, r)) :
    ∃ x, s = x ++ r ∧
      ∀ t, GoesOnAs r t → readStep (.entry entries key :: rest) (x ++ t) = .ok (p, t) := by
  simp only [readStep] at h
  cases hs : skipBlank s with
  | nil =>
    rw [hs] at h
    cases h
  | cons b s' =>
    rw [hs] at h
    obtain ⟨y, rfl, hy⟩ := skipBlank_lexeme hs
    obtain ⟨x, rfl, hx⟩ := readStart_lexeme h
    refine ⟨y ++ b :: x, by simp, fun t ht => ?_⟩
    rw [List.append_assoc, List.cons_append]
    simp only [readStep, hy]
    exact hx t ht

theorem readStep_lexeme {opened : List Opened} {s r : Bytes} {p : Progress}
    (h : readStep opened s = .ok (p, r)) :
    ∃ x, s = x ++ r ∧ ∀ t, GoesOnAs r t → readStep opened (x ++ t) = .ok (p, t) := by
  rcases opened with _ | ⟨⟨items⟩ | ⟨entries⟩ | ⟨entries, key⟩, rest⟩
  · cases s with
    | nil => cases h
    | cons b s =>
      obtain ⟨x, rfl, hx⟩ := readStart_lexeme h
      exact ⟨b :: x, rfl, hx⟩
  · exact readStep_array_lexeme h
  · exact readStep_dictionary_lexeme h
  · exact readStep_entry_lexeme h

def resume (progress : Progress × Bytes) : Except SyntaxFault (Operand × Bytes) :=
  match progress.1 with
  | .complete value => .ok (value, progress.2)
  | .within inner => readWithin inner progress.2

theorem readWithin_eq (opened : List Opened) (s : Bytes) :
    readWithin opened s = (readStep opened s).bind resume := by
  rw [readWithin.eq_def]
  split
  · rename_i e h
    rw [h]
    rfl
  · rename_i v r h
    rw [h]
    rfl
  · rename_i inner r h
    rw [h]
    rfl

theorem readWithin_of_step {opened : List Opened} {s : Bytes} {progress : Progress × Bytes}
    (h : readStep opened s = .ok progress) : readWithin opened s = resume progress := by
  rw [readWithin_eq, h]
  rfl

theorem readWithin_lexeme {opened : List Opened} {s r : Bytes} {v : Operand}
    (h : readWithin opened s = .ok (v, r)) :
    ∃ x, s = x ++ r ∧ ∀ t, GoesOnAs r t → readWithin opened (x ++ t) = .ok (v, t) := by
  fun_induction readWithin opened s with
  | case1 => cases h
  | case2 opened s v' r' hr =>
    cases h
    obtain ⟨x, rfl, hx⟩ := readStep_lexeme hr
    exact ⟨x, rfl, fun t ht => readWithin_of_step (hx t ht)⟩
  | case3 opened s inner r' hr ih =>
    obtain ⟨y, rfl, hy⟩ := ih h
    obtain ⟨x, rfl, hx⟩ := readStep_lexeme hr
    refine ⟨x ++ y, by simp, fun t ht => ?_⟩
    rw [List.append_assoc, readWithin_of_step (hx (y ++ t) (ht.append y))]
    exact hy t ht

theorem read_lexeme {s r : Bytes} {v : Operand} (h : read s = .ok (v, r)) :
    ∃ x, s = x ++ r ∧ ∀ t, GoesOnAs r t → read (x ++ t) = .ok (v, t) :=
  readWithin_lexeme h

end Operand

end PdfContent
