import PdfContent.Proofs.RoundTrip

/-!
How strings are written. A literal string has its bytes as they are or behind a backslash, some of
them by a letter or by an octal number, and lines may be broken anywhere; parentheses that stand for
themselves are balanced. A hexadecimal string has two digits for each byte and blanks between them.
The readers accept just these spellings, and each spelling of a string gives its bytes.
-/

namespace PdfContent

namespace Operand

def controls : List (UInt8 × UInt8) :=
  [(0x6E, Byte.lineFeed), (0x72, Byte.carriageReturn), (0x74, Byte.tab), (0x62, 0x08),
    (0x66, Byte.formFeed)]

def octalValue (digits : Bytes) : Nat := digits.foldl (fun v d => v * 8 + Byte.digitValue d) 0

theorem octalValue_cons (d : UInt8) (digits : Bytes) :
    octalValue (d :: digits) =
      digits.foldl (fun v d => v * 8 + Byte.digitValue d) (Byte.digitValue d) := by
  rw [octalValue, List.foldl_cons, Nat.zero_mul, Nat.zero_add]

/-- What may stand behind a backslash, the bytes it gives, and the bytes it stands in front of. -/
inductive Escapes : Bytes → Bytes → Bytes → Prop
  | control {e b : UInt8} {next : Bytes} (named : (e, b) ∈ controls) : Escapes [e] [b] next
  | itself {e : UInt8} {next : Bytes} (unnamed : controls.lookup e = none)
      (octal : Byte.isOctal e = false) (line : Byte.isLineEnd e = false) : Escapes [e] [e] next
  | octal {digits next : Bytes} (ne : digits ≠ []) (most : digits.length ≤ 3)
      (digit : ∀ d ∈ digits, Byte.isOctal d = true)
      (ends : digits.length = 3 ∨ ∀ b ∈ next.head?, Byte.isOctal b = false) :
      Escapes digits [(octalValue digits).toUInt8] next
  | lineFeed {next : Bytes} : Escapes [Byte.lineFeed] [] next
  | returnFeed {next : Bytes} : Escapes [Byte.carriageReturn, Byte.lineFeed] [] next
  | carriageReturn {next : Bytes} (ends : ∀ b ∈ next.head?, b ≠ Byte.lineFeed) :
      Escapes [Byte.carriageReturn] [] next

theorem Escapes.imp {escape bytes next next' : Bytes} (h : Escapes escape bytes next)
    (sub : ∀ b ∈ next'.head?, b ∈ next.head? ∨ b = Byte.closeParen) :
    Escapes escape bytes next' := by
  cases h with
  | control named => exact .control named
  | itself unnamed octal line => exact .itself unnamed octal line
  | octal ne most digit ends =>
    refine .octal ne most digit (ends.imp_right fun ends b hb => ?_)
    rcases sub b hb with inside | rfl
    · exact ends b inside
    · rfl
  | lineFeed => exact .lineFeed
  | returnFeed => exact .returnFeed
  | carriageReturn ends =>
    refine .carriageReturn fun b hb => ?_
    rcases sub b hb with inside | rfl
    · exact ends b inside
    · decide

theorem readOctal_digits {digits : Bytes} {n : Nat} (most : digits.length ≤ n)
    (digit : ∀ d ∈ digits, Byte.isOctal d = true) {next : Bytes}
    (ends : digits.length = n ∨ ∀ b ∈ next.head?, Byte.isOctal b = false) (v : Nat) :
    readOctal n v (digits ++ next) =
      (digits.foldl (fun v d => v * 8 + Byte.digitValue d) v, next) := by
  induction digits generalizing n v with
  | nil =>
    cases n with
    | zero => rw [List.nil_append, readOctal.eq_def]; rfl
    | succ n =>
      cases next with
      | nil => rfl
      | cons b next =>
        have other : Byte.isOctal b = false := by
          rcases ends with full | ends
          · cases full
          · exact ends b rfl
        rw [List.nil_append, readOctal, if_neg (by simp [other])]
        rfl
  | cons d digits ih =>
    rw [List.forall_mem_cons] at digit
    cases n with
    | zero => exact absurd most (Nat.not_succ_le_zero _)
    | succ n =>
      have fewer : digits.length ≤ n := Nat.le_of_succ_le_succ most
      rw [List.cons_append, readOctal, if_pos digit.1, List.foldl_cons]
      exact ih fewer digit.2 (ends.imp_left Nat.succ.inj) _

theorem exists_octal_digits (n : Nat) (s : Bytes) :
    ∃ digits next, s = digits ++ next ∧ digits.length ≤ n ∧
      (∀ d ∈ digits, Byte.isOctal d = true) ∧
      (digits.length = n ∨ ∀ b ∈ next.head?, Byte.isOctal b = false) := by
  induction n generalizing s with
  | zero => exact ⟨[], s, rfl, Nat.le_refl 0, by simp, .inl rfl⟩
  | succ n ih =>
    cases s with
    | nil => exact ⟨[], [], rfl, Nat.zero_le _, by simp, .inr (by simp)⟩
    | cons b s =>
      by_cases octal : Byte.isOctal b = true
      · obtain ⟨digits, next, rfl, most, digit, ends⟩ := ih s
        exact ⟨b :: digits, next, rfl, Nat.succ_le_succ most,
          List.forall_mem_cons.2 ⟨octal, digit⟩, ends.imp_left (congrArg Nat.succ)⟩
      · refine ⟨[], b :: s, rfl, Nat.zero_le _, by simp, .inr ?_⟩
        rintro c ⟨⟩
        simpa using octal

section

variable {e b : UInt8} (s : Bytes)

theorem readEscape_control (named : (e, b) ∈ controls) : readEscape e s = ([b], s) := by
  simp only [controls, List.mem_cons, List.not_mem_nil, or_false, Prod.mk.injEq] at named
  rcases named with ⟨rfl, rfl⟩ | ⟨rfl, rfl⟩ | ⟨rfl, rfl⟩ | ⟨rfl, rfl⟩ | ⟨rfl, rfl⟩ <;> rfl

theorem readEscape_unnamed (unnamed : controls.lookup e = none)
    (line : Byte.isLineEnd e = false) :
    readEscape e s =
      if Byte.isOctal e then ([(readOctal 2 (Byte.digitValue e) s).1.toUInt8],
        (readOctal 2 (Byte.digitValue e) s).2)
      else ([e], s) := by
  have keys : ∀ p ∈ controls, (e == p.1) = false := by
    simpa using List.lookup_eq_none_iff.1 unnamed
  simp only [controls, List.forall_mem_cons] at keys
  obtain ⟨h₁, h₂, h₃, h₄, h₅, -⟩ := keys
  obtain ⟨h₆, h₇⟩ := Bool.or_eq_false_iff.1 line
  simp only [readEscape, h₁, h₂, h₃, h₄, h₅, h₆, h₇, Bool.false_eq_true, if_false]

theorem unnamed_of_isOctal :
    ∀ e, Byte.isOctal e = true → controls.lookup e = none ∧ Byte.isLineEnd e = false :=
  Byte.forall_of_fin (by decide +kernel)

end

theorem escapes_lineEnd {e : UInt8} (line : Byte.isLineEnd e = true) (s : Bytes) :
    ∃ escape, s = escape ++ (readEscape e s).2 ∧
      Escapes (e :: escape) (readEscape e s).1 (readEscape e s).2 := by
  rcases Bool.or_eq_true_iff.1 line with feed | ret
  · obtain rfl : e = Byte.lineFeed := by simpa using feed
    exact ⟨[], rfl, .lineFeed⟩
  · obtain rfl : e = Byte.carriageReturn := by simpa using ret
    rw [readEscape_return]
    cases behind : Bytes.after? Byte.lineFeed s with
    | some next =>
      exact ⟨[Byte.lineFeed], Bytes.after?_eq_some.1 behind, .returnFeed⟩
    | none =>
      have ends := Bytes.after?_eq_none_iff.1 behind
      exact ⟨[], rfl, .carriageReturn fun b hb => by simpa using ends b hb⟩

theorem escapes_octal {e : UInt8} (octal : Byte.isOctal e = true) (s : Bytes) :
    ∃ escape, s = escape ++ (readEscape e s).2 ∧
      Escapes (e :: escape) (readEscape e s).1 (readEscape e s).2 := by
  obtain ⟨unnamed, line⟩ := unnamed_of_isOctal e octal
  obtain ⟨digits, next, rfl, most, digit, ends⟩ := exists_octal_digits 2 s
  rw [readEscape_unnamed _ unnamed line, if_pos octal, readOctal_digits most digit ends]
  refine ⟨digits, rfl, ?_⟩
  rw [← octalValue_cons]
  exact .octal (List.cons_ne_nil e digits) (Nat.succ_le_succ most)
    (List.forall_mem_cons.2 ⟨octal, digit⟩) (ends.imp_left (congrArg Nat.succ))

theorem escapes_readEscape (e : UInt8) (s : Bytes) :
    ∃ escape, s = escape ++ (readEscape e s).2 ∧
      Escapes (e :: escape) (readEscape e s).1 (readEscape e s).2 := by
  cases named : controls.lookup e with
  | some b =>
    obtain ⟨front, rest, split, -⟩ := List.lookup_eq_some_iff.1 named
    have member : (e, b) ∈ controls := split ▸ List.mem_append_right _ (List.mem_cons_self ..)
    rw [readEscape_control s member]
    exact ⟨[], rfl, .control member⟩
  | none =>
    by_cases line : Byte.isLineEnd e = true
    · exact escapes_lineEnd line s
    by_cases octal : Byte.isOctal e = true
    · exact escapes_octal octal s
    · rw [Bool.not_eq_true] at line octal
      rw [readEscape_unnamed s named line, octal]
      exact ⟨[], rfl, .itself named octal line⟩

theorem readEscape_of_escapes {e : UInt8} {escape bytes next : Bytes}
    (h : Escapes (e :: escape) bytes next) : readEscape e (escape ++ next) = (bytes, next) := by
  cases h with
  | control named => exact readEscape_control next named
  | itself unnamed octal line =>
    rw [readEscape_unnamed _ unnamed line, octal]
    rfl
  | octal ne most digit ends =>
    rw [List.forall_mem_cons] at digit
    obtain ⟨unnamed, line⟩ := unnamed_of_isOctal e digit.1
    have read := readOctal_digits (Nat.le_of_succ_le_succ most) digit.2
      (ends.imp_left Nat.succ.inj) (Byte.digitValue e)
    rw [readEscape_unnamed _ unnamed line, if_pos digit.1, read, octalValue_cons]
  | lineFeed => rfl
  | returnFeed => rfl
  | carriageReturn ends =>
    have apart : Bytes.after? Byte.lineFeed next = none :=
      Bytes.after?_eq_none_iff.2 fun b hb => beq_false_of_ne (ends b hb)
    rw [readEscape_return, List.nil_append, apart]
    rfl

/-- The ways to write bytes between parentheses, with so many parentheses open around them. -/
inductive SpellsLiteral : Nat → Bytes → Bytes → Prop
  | nil : SpellsLiteral 0 [] []
  | plain {depth : Nat} {b : UInt8} {written bytes : Bytes} (opens : b ≠ Byte.openParen)
      (closes : b ≠ Byte.closeParen) (escapes : b ≠ Byte.backslash)
      (rest : SpellsLiteral depth written bytes) : SpellsLiteral depth (b :: written) (b :: bytes)
  | opening {depth : Nat} {written bytes : Bytes} (rest : SpellsLiteral (depth + 1) written bytes) :
      SpellsLiteral depth (Byte.openParen :: written) (Byte.openParen :: bytes)
  | closing {depth : Nat} {written bytes : Bytes} (rest : SpellsLiteral depth written bytes) :
      SpellsLiteral (depth + 1) (Byte.closeParen :: written) (Byte.closeParen :: bytes)
  | escaped {depth : Nat} {escape value written bytes : Bytes}
      (stands : Escapes escape value written) (rest : SpellsLiteral depth written bytes) :
      SpellsLiteral depth (Byte.backslash :: (escape ++ written)) (value ++ bytes)

theorem Escapes.closed {escape value written : Bytes} (h : Escapes escape value written)
    (t : Bytes) : Escapes escape value (written ++ Byte.closeParen :: t) := by
  refine h.imp fun b hb => ?_
  cases written with
  | nil => exact .inr (Option.some.inj hb).symm
  | cons c written => exact .inl hb

theorem Escapes.ne_nil {escape value next : Bytes} (h : Escapes escape value next) :
    escape ≠ [] := by
  cases h with
  | octal ne => exact ne
  | _ => exact List.cons_ne_nil _ _

theorem readLiteral_of_spells {depth : Nat} {written bytes : Bytes}
    (h : SpellsLiteral depth written bytes) (t : Bytes) :
    readLiteral depth (written ++ Byte.closeParen :: t) = some (bytes, t) := by
  induction h with
  | nil => exact readLiteral_close t
  | plain opens closes escapes _ ih =>
    rw [List.cons_append, readLiteral_plain (by simpa) (by simpa) (by simpa), ih]
    rfl
  | opening _ ih =>
    rw [List.cons_append, readLiteral_open, ih]
    rfl
  | closing _ ih =>
    rw [List.cons_append, readLiteral_close_inner, ih]
    rfl
  | escaped stands _ ih =>
    obtain ⟨e, escape, rfl⟩ := List.exists_cons_of_ne_nil stands.ne_nil
    have read := readEscape_of_escapes (stands.closed t)
    rw [List.cons_append, List.append_assoc, List.cons_append, readLiteral_escape, read, ih]
    rfl

theorem spells_of_readLiteral {depth : Nat} {s bytes t : Bytes}
    (h : readLiteral depth s = some (bytes, t)) :
    ∃ written, SpellsLiteral depth written bytes ∧ s = written ++ Byte.closeParen :: t := by
  fun_induction readLiteral depth s generalizing bytes t with
  | case1 => cases h
  | case2 depth b s hb ih =>
    obtain rfl : b = Byte.openParen := by simpa using hb
    obtain ⟨⟨bytes, t⟩, read, whole⟩ := Option.map_eq_some_iff.1 h
    obtain ⟨rfl, rfl⟩ := Prod.mk.inj whole
    obtain ⟨written, spelled, rfl⟩ := ih read
    exact ⟨_, .opening spelled, rfl⟩
  | case3 b s hb hc =>
    obtain rfl : b = Byte.closeParen := by simpa using hc
    cases h
    exact ⟨[], .nil, rfl⟩
  | case4 b s hb hc depth ih =>
    obtain rfl : b = Byte.closeParen := by simpa using hc
    obtain ⟨⟨bytes, t⟩, read, whole⟩ := Option.map_eq_some_iff.1 h
    obtain ⟨rfl, rfl⟩ := Prod.mk.inj whole
    obtain ⟨written, spelled, rfl⟩ := ih read
    exact ⟨_, .closing spelled, rfl⟩
  | case5 => cases h
  | case6 depth b hb hc hd e s escape =>
    rename_i ih
    obtain rfl : b = Byte.backslash := by simpa using hd
    obtain ⟨⟨bytes, t⟩, read, whole⟩ := Option.map_eq_some_iff.1 h
    obtain ⟨rfl, rfl⟩ := Prod.mk.inj whole
    obtain ⟨written, spelled, behind⟩ := ih read
    obtain ⟨letters, split, stands⟩ := escapes_readEscape e s
    -- The escape stands in front of what is left of the string, not of what is behind it.
    have inside : Escapes (e :: letters) escape.1 written := by
      refine stands.imp fun c hc => .inl ?_
      rw [show (readEscape e s).2 = _ from behind]
      cases written with
      | nil => cases hc
      | cons d written => exact hc
    refine ⟨_, .escaped inside spelled, ?_⟩
    rw [List.cons_append, List.append_assoc, ← behind, List.cons_append]
    exact congrArg (fun s => Byte.backslash :: e :: s) split
  | case7 depth b s hb hc hd ih =>
    obtain ⟨⟨bytes, t⟩, read, whole⟩ := Option.map_eq_some_iff.1 h
    obtain ⟨rfl, rfl⟩ := Prod.mk.inj whole
    obtain ⟨written, spelled, rfl⟩ := ih read
    exact ⟨_, .plain (by simpa using hb) (by simpa using hc) (by simpa using hd) spelled, rfl⟩

inductive SpellsPairs : Bytes → Bytes → Prop
  | nil : SpellsPairs [] []
  | pair {h l : UInt8} {high low : Nat} {digits bytes : Bytes}
      (first : Byte.hexValue h = some high) (second : Byte.hexValue l = some low)
      (rest : SpellsPairs digits bytes) :
      SpellsPairs (h :: l :: digits) ((high * 16 + low).toUInt8 :: bytes)
  | half {h : UInt8} {high : Nat} (first : Byte.hexValue h = some high) :
      SpellsPairs [h] [(high * 16).toUInt8]

/-- The ways to write bytes between angle brackets: their digits, with blanks anywhere. -/
def SpellsHex (written bytes : Bytes) : Prop :=
  SpellsPairs (written.filter fun b => !Byte.isBlank b) bytes

theorem not_blank_of_hexValue {b : UInt8} {value : Nat} (h : Byte.hexValue b = some value) :
    ¬ Byte.isBlank b = true ∧ b ≠ Byte.greater ∧ b ≠ Byte.less := by
  have regular := Byte.isRegular_of_hexValue h
  refine ⟨?_, ?_, ?_⟩
  · rw [Byte.isRegular, Bool.and_eq_true] at regular
    simpa using regular.1
  · rintro rfl
    cases regular
  · rintro rfl
    cases regular

theorem SpellsPairs.digit {digits bytes : Bytes} (h : SpellsPairs digits bytes) :
    ∀ b ∈ digits, ∃ value, Byte.hexValue b = some value := by
  induction h with
  | nil => simp
  | pair first second _ ih =>
    exact List.forall_mem_cons.2 ⟨⟨_, first⟩, List.forall_mem_cons.2 ⟨⟨_, second⟩, ih⟩⟩
  | half first => exact List.forall_mem_singleton.2 ⟨_, first⟩

theorem SpellsHex.not_bracket {written bytes : Bytes} (h : SpellsHex written bytes) :
    ∀ b ∈ written, b ≠ Byte.greater ∧ b ≠ Byte.less := by
  intro b hb
  by_cases blank : Byte.isBlank b = true
  · constructor <;> rintro rfl <;> cases blank
  · have kept : b ∈ written.filter fun b => !Byte.isBlank b :=
      List.mem_filter.2 ⟨hb, by simpa using blank⟩
    obtain ⟨value, digit⟩ := SpellsPairs.digit h b kept
    exact (not_blank_of_hexValue digit).2

inductive Pending : Option Nat → Bytes → Prop
  | none : Pending none []
  | some {h : UInt8} {high : Nat} (first : Byte.hexValue h = some high) : Pending (some high) [h]

theorem spells_of_readHex {high : Option Nat} {lead s bytes t : Bytes} (pending : Pending high lead)
    (h : readHex high s = .ok (bytes, t)) :
    ∃ written, SpellsPairs (lead ++ written.filter fun b => !Byte.isBlank b) bytes ∧
      s = written ++ Byte.greater :: t := by
  fun_induction readHex high s generalizing lead bytes t with
  | case1 => cases h
  | case2 b s hb high =>
    obtain rfl : b = Byte.greater := by simpa using hb
    cases h
    cases pending with
    | some first => exact ⟨[], .half first, rfl⟩
  | case3 b s hb =>
    obtain rfl : b = Byte.greater := by simpa using hb
    cases h
    cases pending
    exact ⟨[], .nil, rfl⟩
  | case4 high b s hb blank ih =>
    obtain ⟨written, spelled, rfl⟩ := ih pending h
    refine ⟨b :: written, ?_, rfl⟩
    rwa [List.filter_cons_of_neg (by simpa using blank)]
  | case5 => cases h
  | case6 b s hb blank v read ih =>
    obtain ⟨written, spelled, rfl⟩ := ih (.some read) h
    cases pending
    refine ⟨b :: written, ?_, rfl⟩
    rwa [List.filter_cons_of_pos (by simpa using blank)]
  | case7 b s hb blank v high read ih =>
    obtain ⟨⟨bytes, t⟩, rest, whole⟩ := map_eq_ok h
    obtain ⟨rfl, rfl⟩ := Prod.mk.inj whole
    obtain ⟨written, spelled, rfl⟩ := ih .none rest
    cases pending with
    | some first =>
      refine ⟨b :: written, ?_, rfl⟩
      rw [List.filter_cons_of_pos (by simpa using blank)]
      exact .pair first read spelled

theorem readHex_filter {written : Bytes} (inside : ∀ b ∈ written, b ≠ Byte.greater)
    (high : Option Nat) (t : Bytes) :
    readHex high (written ++ t) =
      readHex high ((written.filter fun b => !Byte.isBlank b) ++ t) := by
  induction written generalizing high with
  | nil => rfl
  | cons b written ih =>
    rw [List.forall_mem_cons] at inside
    have closes : ¬ (b == Byte.greater) = true := by simpa using inside.1
    by_cases blank : Byte.isBlank b = true
    · rw [List.filter_cons_of_neg (by simpa using blank), List.cons_append,
        readHex_blank closes blank, ih inside.2]
    · rw [List.filter_cons_of_pos (by simpa using blank), List.cons_append, List.cons_append,
        readHex.eq_def, readHex.eq_def high (b :: _)]
      simp only [if_neg closes, if_neg blank, ih inside.2]

theorem readHex_of_pairs {digits bytes : Bytes} (h : SpellsPairs digits bytes) (t : Bytes) :
    readHex none (digits ++ Byte.greater :: t) = .ok (bytes, t) := by
  induction h with
  | nil => exact readHex_close none t
  | pair first second _ ih =>
    obtain ⟨blank, closes, -⟩ := not_blank_of_hexValue first
    obtain ⟨blank', closes', -⟩ := not_blank_of_hexValue second
    rw [List.cons_append, List.cons_append, readHex_first (by simpa) blank first,
      readHex_second (by simpa) blank' second, ih]
    rfl
  | half first =>
    obtain ⟨blank, closes, -⟩ := not_blank_of_hexValue first
    rw [List.singleton_append, readHex_first (by simpa) blank first]
    exact readHex_close _ t

theorem readHex_of_spells {written bytes : Bytes} (h : SpellsHex written bytes) (t : Bytes) :
    readHex none (written ++ Byte.greater :: t) = .ok (bytes, t) := by
  rw [readHex_filter fun b hb => (h.not_bracket b hb).1]
  exact readHex_of_pairs h t

inductive SpellsString : Bytes → Operand → Prop
  | literal {written bytes : Bytes} (h : SpellsLiteral 0 written bytes) :
      SpellsString (Byte.openParen :: (written ++ [Byte.closeParen])) (.literal bytes)
  | hex {written bytes : Bytes} (h : SpellsHex written bytes) :
      SpellsString (Byte.less :: (written ++ [Byte.greater])) (.hex bytes)

theorem readStart_string {text : Bytes} {v : Operand} (h : SpellsString text v)
    (opened : List Opened) (t : Bytes) :
    readStart opened (text ++ t) = .ok (place v opened, t) := by
  cases h with
  | @literal written bytes h =>
    have read := readLiteral_of_spells h t
    rw [List.cons_append, List.append_assoc, List.singleton_append, readStart]
    simp only [BEq.rfl, if_true, read]
  | @hex written bytes h =>
    have read := readHex_of_spells h t
    have apart : Bytes.after? Byte.less (written ++ Byte.greater :: t) = none := by
      rw [Bytes.after?_eq_none_iff]
      intro b hb
      cases written with
      | nil =>
        obtain rfl := Option.some.inj hb
        rfl
      | cons c written =>
        obtain rfl := Option.some.inj hb
        exact beq_false_of_ne (h.not_bracket _ (List.mem_cons_self ..)).2
    have paren : (Byte.less == Byte.openParen) = false := rfl
    rw [List.cons_append, List.append_assoc, List.singleton_append, readStart]
    simp only [paren, BEq.rfl, if_true, apart, read]
    rfl

end Operand

namespace Token

open Operand

theorem ofBytes_string {text : Bytes} {v : Operand} (h : SpellsString text v) (t : Bytes) :
    ofBytes (text ++ t) = (ofBytes t).map ([.operand v] ++ ·) := by
  have step : readStep [] (text ++ t) = .ok (.complete v, t) := readStart_string h [] t
  have read : Operand.read (text ++ t) = .ok (v, t) := readWithin_of_step step
  cases h with
  | literal => exact PlainToken.ofBytes_of_read (by decide) read
  | hex => exact PlainToken.ofBytes_of_read (by decide) read

/-- Every spelling of a string is one token with the bytes of the string, and strings are read of
their spellings only. -/
theorem ofBytes_spelledString :
    (∀ text v, SpellsString text v → ofBytes text = .ok [.operand v] ∧
      ∀ t, ofBytes (text ++ t) = (ofBytes t).map ([.operand v] ++ ·)) ∧
    (∀ s bytes t, readLiteral 0 s = some (bytes, t) ↔
      ∃ written, SpellsLiteral 0 written bytes ∧ s = written ++ Byte.closeParen :: t) ∧
    ∀ s bytes t, readHex none s = .ok (bytes, t) ↔
      ∃ written, SpellsHex written bytes ∧ s = written ++ Byte.greater :: t := by
  refine ⟨fun text v h => ⟨?_, ofBytes_string h⟩, fun s bytes t => ⟨spells_of_readLiteral, ?_⟩,
    fun s bytes t => ⟨fun h => spells_of_readHex .none h, ?_⟩⟩
  · have read := ofBytes_string h []
    rwa [List.append_nil, ofBytes_nil skipBlank_nil] at read
  · rintro ⟨written, spelled, rfl⟩
    exact readLiteral_of_spells spelled t
  · rintro ⟨written, spelled, rfl⟩
    exact readHex_of_spells spelled t

theorem ofBytes_spelledString_mixed :
    let literal := Bytes.ofLatin "\\101(\\53\\\r\n\\))\\\r\\n\n8\\q\\777"
    let hex := Bytes.ofLatin " 4f\n4\t "
    SpellsLiteral 0 literal (Bytes.ofLatin "A(+))\n\n8qÿ") ∧
      ofBytes (Byte.openParen :: (literal ++ [Byte.closeParen])) =
        .ok [.operand (.literal (Bytes.ofLatin "A(+))\n\n8qÿ"))] ∧
      SpellsHex hex (Bytes.ofLatin "O@") ∧
      ofBytes (Byte.less :: (hex ++ [Byte.greater])) =
        .ok [.operand (.hex (Bytes.ofLatin "O@"))] := by
  intro literal hex
  obtain ⟨reads, readsLiteral, readsHex⟩ := ofBytes_spelledString
  have spelled : SpellsLiteral 0 literal (Bytes.ofLatin "A(+))\n\n8qÿ") := by
    obtain ⟨written, spelled, split⟩ :=
      (readsLiteral (literal ++ [Byte.closeParen]) (Bytes.ofLatin "A(+))\n\n8qÿ") []).1
        (by decide +kernel)
    rwa [List.append_cancel_right split]
  have spelled' : SpellsHex hex (Bytes.ofLatin "O@") := by
    obtain ⟨written, spelled, split⟩ :=
      (readsHex (hex ++ [Byte.greater]) (Bytes.ofLatin "O@") []).1 (by decide +kernel)
    rwa [List.append_cancel_right split]
  exact ⟨spelled, (reads _ _ (.literal spelled)).1, spelled', (reads _ _ (.hex spelled')).1⟩

end Token

end PdfContent
