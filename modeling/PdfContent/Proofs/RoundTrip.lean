import PdfContent.Proofs.Printing
import PdfContent.Proofs.TokenLookahead

/-!
Reading back what was printed. An operand is read from its first byte to its last one, whatever is
open around it, since behind it comes a space, a bracket or the end. Containers are read item by
item; the operands between the brackets come back in their order, keys and duplicates kept.
-/

namespace PdfContent

namespace Operand

/-- Where an operand may stand, and the gap that may be in front of it. -/
inductive Awaits : List Opened → Bytes → Prop
  | outermost : Awaits [] []
  | item {items : List Operand} {rest : List Opened} {gap : Bytes} (h : Gap gap) :
      Awaits (.array items :: rest) gap
  | value {entries : List (String × Operand)} {key : String} {rest : List Opened} {gap : Bytes}
      (h : Gap gap) : Awaits (.entry entries key :: rest) gap

def isFirst (b : UInt8) : Bool := isStart b || isWordStart b

theorem isFirst_spec : ∀ b, isFirst b = true →
    Byte.isGap b = false ∧ (b == Byte.closeBracket) = false :=
  Byte.forall_of_fin (by decide +kernel)

theorem readStep_of_awaits {opened : List Opened} {gap s : Bytes} {b : UInt8}
    (h : Awaits opened gap) (hb : isFirst b = true) :
    readStep opened (gap ++ b :: s) = readStart opened (b :: s) := by
  obtain ⟨hgap, hclose⟩ := isFirst_spec b hb
  cases h with
  | outermost => rfl
  | item h =>
    have hskip : skipBlank (gap ++ b :: s) = b :: s := by rw [h, skipBlank_of_not_isGap hgap]
    simp only [readStep, hskip, hclose]
    rfl
  | value h =>
    have hskip : skipBlank (gap ++ b :: s) = b :: s := by rw [h, skipBlank_of_not_isGap hgap]
    simp only [readStep, hskip]

theorem readWithin_of_start {opened : List Opened} {gap s : Bytes} {b : UInt8}
    {progress : Progress × Bytes} (h : Awaits opened gap) (hb : isFirst b = true)
    (hs : readStart opened (b :: s) = .ok progress) :
    readWithin opened (gap ++ b :: s) = resume progress :=
  readWithin_of_step ((readStep_of_awaits h hb).trans hs)

theorem readStart_number {b : UInt8} (h : isNumberStart b = true) (opened : List Opened)
    (s : Bytes) :
    readStart opened (b :: s) =
      .ok (place (readNumber (b :: s)).1 opened, (readNumber (b :: s)).2) := by
  have all : ∀ b, isNumberStart b = true → (b == Byte.openParen) = false ∧
      (b == Byte.less) = false ∧ (b == Byte.openBracket) = false ∧ (b == Byte.slash) = false :=
    Byte.forall_of_fin (by decide +kernel)
  obtain ⟨h₁, h₂, h₃, h₄⟩ := all b h
  simp only [readStart, h₁, h₂, h₃, h₄, h]
  rfl

theorem readStart_word {b : UInt8} (h : isWordStart b = true) (opened : List Opened)
    (s : Bytes) :
    readStart opened (b :: s) =
      .ok (place (ofWord (spanRegular (b :: s)).1.toText) opened, (spanRegular (b :: s)).2) := by
  have all : ∀ b, isWordStart b = true → (b == Byte.openParen) = false ∧
      (b == Byte.less) = false ∧ (b == Byte.openBracket) = false ∧ (b == Byte.slash) = false ∧
      isNumberStart b = false :=
    Byte.forall_of_fin (by decide +kernel)
  obtain ⟨h₁, h₂, h₃, h₄, h₅⟩ := all b h
  simp only [readStart, h₁, h₂, h₃, h₄, h₅, h]
  rfl

theorem spanRegular_text {text : String} {t : Bytes}
    (regular : ∀ b ∈ Bytes.ofUtf8 text, Byte.isRegular b = true)
    (ends : Bytes.EndsRun t) :
    spanRegular (Bytes.ofUtf8 text ++ t) = (Bytes.ofUtf8 text, t) := by
  obtain ⟨h₁, h₂⟩ := Bytes.span_append regular ends
  rw [spanRegular, h₁, h₂]

end Operand

namespace PlainOperand

open Operand

theorem writeInteger_first (i : Int) :
    ∃ b s, writeInteger i = b :: s ∧ isNumberStart b = true := by
  rw [writeInteger_eq]
  split_ifs with hi
  · obtain ⟨d, ds, hds⟩ := List.exists_cons_of_ne_nil (writeDigits_ne_nil i.toNat)
    have hd : Byte.isDigit d = true := isDigit_writeDigits i.toNat d (by rw [hds]; simp)
    exact ⟨d, ds, hds, by simp [isNumberStart, hd]⟩
  · exact ⟨_, _, rfl, by decide⟩

section

variable {spaced : Bool} {opened : List Opened} {gap t : Bytes}

theorem readWithin_word {text : String} (awaits : Awaits opened gap)
    (ends : Bytes.EndsRun t)
    (start : (Bytes.ofUtf8 text).head?.any isWordStart = true)
    (regular : ∀ b ∈ Bytes.ofUtf8 text, Byte.isRegular b = true) :
    readWithin opened (gap ++ (Bytes.ofUtf8 text ++ t)) =
      resume (place (ofWord text) opened, t) := by
  have hspan := spanRegular_text regular ends
  have htext : (Bytes.ofUtf8 text).toText = text := Bytes.toText_ofUtf8 text
  generalize Bytes.ofUtf8 text = w at *
  cases w with
  | nil => cases start
  | cons b w =>
    have hb : isWordStart b = true := start
    have hread := readStart_word hb opened (w ++ t)
    rw [List.cons_append] at hspan
    rw [hspan, htext] at hread
    exact readWithin_of_start awaits (by simp [isFirst, hb]) hread

theorem readWithin_integer (awaits : Awaits opened gap)
    (ends : Bytes.EndsRun t) (i : Int64) :
    readWithin opened (gap ++ (writeInteger i.toInt ++ t)) =
      resume (place (.integer i.toInt) opened, t) := by
  have hnumber := readNumber_write i ends
  obtain ⟨b, s, hs, hb⟩ := writeInteger_first i.toInt
  rw [hs, List.cons_append] at hnumber ⊢
  have hread := readStart_number hb opened (s ++ t)
  rw [hnumber] at hread
  exact readWithin_of_start awaits (by simp [isFirst, isStart, hb]) hread

theorem readWithin_name (awaits : Awaits opened gap)
    (ends : Bytes.EndsRun t) (text : String) :
    readWithin opened (gap ++ (writeName text ++ t)) =
      resume (place (.name text) opened, t) := by
  have hread := readStart_spelledName (escapeName_spells (Bytes.ofUtf8 text)) ends opened
  exact readWithin_of_start awaits (by decide) hread

theorem readWithin_literal (awaits : Awaits opened gap) (bytes : Bytes) :
    readWithin opened (gap ++ (writeLiteral bytes ++ t)) =
      resume (place (.literal bytes) opened, t) := by
  have hassoc : writeLiteral bytes ++ t =
      Byte.openParen :: (bytes.flatMap escapeLiteral ++ Byte.closeParen :: t) := by
    simp [writeLiteral]
  have hread : readStart opened
      (Byte.openParen :: (bytes.flatMap escapeLiteral ++ Byte.closeParen :: t)) =
        .ok (place (.literal bytes) opened, t) := by
    simp only [readStart, BEq.rfl, if_true, readLiteral_write]
  rw [hassoc]
  exact readWithin_of_start awaits (by decide) hread

theorem after?_hexPairs (bytes t : Bytes) :
    Bytes.after? Byte.less (bytes.flatMap Byte.hexPair ++ Byte.greater :: t) = none := by
  have all : ∀ n : Fin 16, (Byte.hexDigit n == Byte.less) = false := by decide
  rw [Bytes.after?_eq_none_iff]
  cases bytes with
  | nil =>
    rintro c ⟨⟩
    decide
  | cons b bytes =>
    rintro c ⟨⟩
    exact all ⟨_, (Byte.half_lt b).1⟩

theorem readWithin_hex (awaits : Awaits opened gap) (bytes : Bytes) :
    readWithin opened (gap ++ (writeHex bytes ++ t)) =
      resume (place (.hex bytes) opened, t) := by
  have hassoc : writeHex bytes ++ t =
      Byte.less :: (bytes.flatMap Byte.hexPair ++ Byte.greater :: t) := by
    simp [writeHex]
  have hread : readStart opened (Byte.less :: (bytes.flatMap Byte.hexPair ++ Byte.greater :: t)) =
      .ok (place (.hex bytes) opened, t) := by
    have hparen : (Byte.less == Byte.openParen) = false := by decide
    simp only [readStart, hparen, BEq.rfl, if_true, after?_hexPairs, readHex_write]
    rfl
  rw [hassoc]
  exact readWithin_of_start awaits (by decide) hread

theorem endsRun_space (s : Bytes) : Bytes.EndsRun (Byte.space :: s) :=
  Bytes.endsRun_cons (by decide) s

theorem endsRun_writeItems (xs : List PlainOperand) (ends : Bytes.EndsRun t) :
    Bytes.EndsRun (writeItems spaced [Byte.space] xs ++ t) := by
  cases xs with
  | nil => rwa [writeItems, List.nil_append]
  | cons x xs =>
    rw [writeItems, List.append_assoc, List.append_assoc]
    exact endsRun_space _

theorem endsRun_writeEntries (entries : List (String × PlainOperand)) (ends : Bytes.EndsRun t) :
    Bytes.EndsRun (writeEntries spaced [Byte.space] entries ++ t) := by
  cases entries with
  | nil => rwa [writeEntries, List.nil_append]
  | cons e entries =>
    obtain ⟨key, x⟩ := e
    simp only [writeEntries, List.append_assoc]
    exact endsRun_space _

theorem endsRun_margin (spaced : Bool) {b : UInt8} (hb : Byte.isRegular b = false) (s : Bytes) :
    Bytes.EndsRun (margin spaced ++ b :: s) := by
  cases spaced with
  | true => exact endsRun_space _
  | false => exact Bytes.endsRun_cons hb s

theorem gap_space : Gap [Byte.space] := Gap.blank (by decide) Gap.nil

theorem gap_margin : Gap (margin spaced) := by
  cases spaced with
  | true => exact gap_space
  | false => exact Gap.nil

theorem readWithin_open_array (awaits : Awaits opened gap) (s : Bytes) :
    readWithin opened (gap ++ Byte.openBracket :: s) = readWithin (.array [] :: opened) s := by
  have hread : readStart opened (Byte.openBracket :: s) =
      .ok (.within (.array [] :: opened), s) := rfl
  exact readWithin_of_start awaits (by decide) hread

theorem readWithin_close_array (items : List Operand) (h : Gap gap) :
    readWithin (.array items :: opened) (gap ++ Byte.closeBracket :: t) =
      resume (place (.array items.reverse) opened, t) := by
  have hskip : skipBlank (gap ++ Byte.closeBracket :: t) = Byte.closeBracket :: t := by
    rw [h, skipBlank_of_not_isGap (by decide)]
  refine readWithin_of_step ?_
  simp only [readStep, hskip, BEq.rfl, if_true]

theorem readWithin_open_dictionary (awaits : Awaits opened gap) (s : Bytes) :
    readWithin opened (gap ++ Byte.less :: Byte.less :: s) =
      readWithin (.dictionary [] :: opened) s := by
  have hread : readStart opened (Byte.less :: Byte.less :: s) =
      .ok (.within (.dictionary [] :: opened), s) := rfl
  exact readWithin_of_start awaits (by decide) hread

theorem readWithin_close_dictionary (entries : List (String × Operand)) (h : Gap gap) :
    readWithin (.dictionary entries :: opened) (gap ++ Byte.greater :: Byte.greater :: t) =
      resume (place (.dictionary entries.reverse) opened, t) := by
  have hskip : skipBlank (gap ++ Byte.greater :: Byte.greater :: t) =
      Byte.greater :: Byte.greater :: t := by
    rw [h, skipBlank_of_not_isGap (by decide)]
  have hslash : (Byte.greater == Byte.slash) = false := by decide
  refine readWithin_of_step ?_
  simp only [readStep, hskip, hslash, BEq.rfl, if_true, Bytes.after?_self]
  rfl

theorem readWithin_key (entries : List (String × Operand)) (h : Gap gap)
    (ends : Bytes.EndsRun t) (key : String) :
    readWithin (.dictionary entries :: opened) (gap ++ (writeName key ++ t)) =
      readWithin (.entry entries key :: opened) t := by
  have hgap : readStep (.dictionary entries :: opened) (gap ++ (writeName key ++ t)) =
      readStep (.dictionary entries :: opened) (writeName key ++ t) := by
    simp only [readStep, h (writeName key ++ t)]
  have hstep := readStep_spelledKey (escapeName_spells (Bytes.ofUtf8 key)) ends entries opened
  exact readWithin_of_step (hgap.trans hstep)

end

mutual

theorem readWithin_write {spaced : Bool} {opened : List Opened} {gap t : Bytes}
    (awaits : Awaits opened gap) (ends : Bytes.EndsRun t) :
    (x : PlainOperand) → readWithin opened (gap ++ (x.write spaced ++ t)) =
      resume (place x.toOperand opened, t)
  | .null => readWithin_word awaits ends (by decide +kernel) (by decide +kernel)
  | .boolean true => readWithin_word awaits ends (by decide +kernel) (by decide +kernel)
  | .boolean false => readWithin_word awaits ends (by decide +kernel) (by decide +kernel)
  | .integer i => readWithin_integer awaits ends i
  | .name text => readWithin_name awaits ends text
  | .literal bytes => readWithin_literal awaits bytes
  | .hex bytes => readWithin_hex awaits bytes
  | .array items => by
    have hassoc : write spaced (.array items) ++ t = Byte.openBracket ::
        (writeItems spaced (margin spaced) items ++
          (margin spaced ++ Byte.closeBracket :: t)) := by
      simp [write]
    have hends := endsRun_margin spaced (by decide : Byte.isRegular Byte.closeBracket = false) t
    rw [hassoc, readWithin_open_array awaits, readWithin_writeItems gap_margin hends [] items,
      readWithin_close_array _ gap_margin, List.append_nil, List.reverse_reverse]
    rfl
  | .dictionary entries => by
    have hassoc : write spaced (.dictionary entries) ++ t = Byte.less :: Byte.less ::
        (writeEntries spaced (margin spaced) entries ++
          (margin spaced ++ Byte.greater :: Byte.greater :: t)) := by
      simp [write]
    have hends := endsRun_margin spaced (by decide : Byte.isRegular Byte.greater = false)
      (Byte.greater :: t)
    rw [hassoc, readWithin_open_dictionary awaits,
      readWithin_writeEntries gap_margin hends [] entries,
      readWithin_close_dictionary _ gap_margin, List.append_nil, List.reverse_reverse]
    rfl

theorem readWithin_writeItems {spaced : Bool} {opened : List Opened} {lead t : Bytes}
    (h : Gap lead) (ends : Bytes.EndsRun t) (held : List Operand) :
    (items : List PlainOperand) →
      readWithin (.array held :: opened) (writeItems spaced lead items ++ t) =
        readWithin (.array ((toOperands items).reverse ++ held) :: opened) t
  | [] => rfl
  | x :: xs => by
    have hassoc : writeItems spaced lead (x :: xs) ++ t =
        lead ++ (x.write spaced ++ (writeItems spaced [Byte.space] xs ++ t)) := by
      simp [writeItems]
    rw [hassoc, readWithin_write (.item h) (endsRun_writeItems xs ends) x]
    change readWithin (.array (x.toOperand :: held) :: opened) _ = _
    rw [readWithin_writeItems gap_space ends (x.toOperand :: held) xs]
    simp [toOperands]

theorem readWithin_writeEntries {spaced : Bool} {opened : List Opened} {lead t : Bytes}
    (h : Gap lead) (ends : Bytes.EndsRun t)
    (held : List (String × Operand)) :
    (entries : List (String × PlainOperand)) →
      readWithin (.dictionary held :: opened) (writeEntries spaced lead entries ++ t) =
        readWithin (.dictionary ((toEntries entries).reverse ++ held) :: opened) t
  | [] => rfl
  | (key, x) :: entries => by
    have hassoc : writeEntries spaced lead ((key, x) :: entries) ++ t =
        lead ++ (writeName key ++ ([Byte.space] ++
          (x.write spaced ++ (writeEntries spaced [Byte.space] entries ++ t)))) := by
      simp [writeEntries]
    have hspace : Bytes.EndsRun ([Byte.space] ++ (x.write spaced ++
        (writeEntries spaced [Byte.space] entries ++ t))) :=
      endsRun_space _
    rw [hassoc, readWithin_key held h hspace key,
      readWithin_write (.value gap_space) (endsRun_writeEntries entries ends) x]
    change readWithin (.dictionary ((key, x.toOperand) :: held) :: opened) _ = _
    rw [readWithin_writeEntries gap_space ends ((key, x.toOperand) :: held) entries]
    simp [toEntries]

end

theorem read_write (spaced : Bool) {t : Bytes} (ends : Bytes.EndsRun t)
    (x : PlainOperand) : read (x.write spaced ++ t) = .ok (x.toOperand, t) :=
  readWithin_write .outermost ends x

end PlainOperand

namespace PlainToken

open Operand

section

variable {spaced : Bool} {t : Bytes}

theorem ofBytes_of_readTokens {b : UInt8} {s : Bytes} {token : Token} (hb : isFirst b = true)
    (h : Token.readTokens b s = .ok ([token], t)) :
    Token.ofBytes (b :: s) = (Token.ofBytes t).map ([token] ++ ·) :=
  Token.ofBytes_cons (skipBlank_of_not_isGap (isFirst_spec b hb).1 s) h

theorem ofBytes_of_read {b : UInt8} {s : Bytes} {value : Operand} (hb : isStart b = true)
    (h : read (b :: s) = .ok (value, t)) :
    Token.ofBytes (b :: s) = (Token.ofBytes t).map ([.operand value] ++ ·) := by
  refine ofBytes_of_readTokens (by simp [isFirst, hb]) ?_
  rw [Token.readTokens_start hb, h]
  rfl

theorem ofBytes_word {text : String} (ends : Bytes.EndsRun t)
    (start : (Bytes.ofUtf8 text).head?.any isWordStart = true)
    (regular : ∀ b ∈ Bytes.ofUtf8 text, Byte.isRegular b = true) (image : text ≠ "BI") :
    Token.ofBytes (Bytes.ofUtf8 text ++ t) =
      (Token.ofBytes t).map ([Token.ofWord text] ++ ·) := by
  have all : ∀ b, isWordStart b = true → Token.isLoneDelimiter b = false ∧
      (b == Byte.greater) = false :=
    Byte.forall_of_fin (by decide +kernel)
  have hspan := spanRegular_text regular ends
  have htext : (Bytes.ofUtf8 text).toText = text := Bytes.toText_ofUtf8 text
  have hne : (Bytes.ofUtf8 text == Bytes.ofLatin "BI") = false := by
    have hlatin : Bytes.ofLatin "BI" = Bytes.ofUtf8 "BI" := by decide
    rw [hlatin]
    exact beq_false_of_ne (mt (@Bytes.ofUtf8_injective text "BI") image)
  generalize Bytes.ofUtf8 text = w at *
  cases w with
  | nil => cases start
  | cons b w =>
    have hb : isWordStart b = true := start
    obtain ⟨h₁, h₂⟩ := all b hb
    rw [List.cons_append] at hspan ⊢
    refine ofBytes_of_readTokens (by simp [isFirst, hb]) ?_
    simp only [Token.readTokens, h₁, h₂, hb, hspan, hne, htext]
    rfl

theorem ofBytes_operand (ends : Bytes.EndsRun t) (x : PlainOperand) :
    Token.ofBytes (x.write spaced ++ t) =
      (Token.ofBytes t).map ([.operand x.toOperand] ++ ·) := by
  have hread := PlainOperand.read_write spaced ends x
  cases x with
  | null => exact ofBytes_word ends (by decide +kernel) (by decide +kernel) (by decide)
  | boolean b =>
    cases b with
    | true => exact ofBytes_word ends (by decide +kernel) (by decide +kernel) (by decide)
    | false => exact ofBytes_word ends (by decide +kernel) (by decide +kernel) (by decide)
  | integer i =>
    obtain ⟨b, s, hs, hb⟩ := PlainOperand.writeInteger_first i.toInt
    rw [PlainOperand.write, hs] at hread ⊢
    exact ofBytes_of_read (by simp [isStart, hb]) hread
  | name text => exact ofBytes_of_read (by decide) hread
  | literal bytes => exact ofBytes_of_read (by decide) hread
  | hex bytes => exact ofBytes_of_read (by decide) hread
  | array items => exact ofBytes_of_read (by decide) hread
  | dictionary entries => exact ofBytes_of_read (by decide) hread

theorem ofBytes_write (ends : Bytes.EndsRun t) (token : PlainToken) :
    Token.ofBytes (token.write spaced ++ t) =
      (Token.ofBytes t).map ([token.toToken] ++ ·) := by
  cases token with
  | operand x => exact ofBytes_operand ends x
  | operator word =>
    obtain ⟨text, start, regular, free⟩ := word
    simp only [List.mem_cons, List.not_mem_nil, or_false, not_or] at free
    obtain ⟨htrue, hfalse, hnull, himage⟩ := free
    have hword : Token.ofWord text = .operator text := by
      simp [Token.ofWord, htrue, hfalse, hnull]
    have hread := ofBytes_word ends start regular himage
    rwa [hword] at hread

end

def printRest (spaced : Bool) (tokens : List PlainToken) : Bytes :=
  tokens.flatMap fun token => Byte.space :: token.write spaced

theorem print_cons (spaced : Bool) (token : PlainToken) (tokens : List PlainToken) :
    print spaced (token :: tokens) = token.write spaced ++ printRest spaced tokens := by
  induction tokens generalizing token with
  | nil => simp [print, printRest]
  | cons next tokens ih =>
    have hnext : print spaced (token :: next :: tokens) =
        token.write spaced ++ [Byte.space] ++ print spaced (next :: tokens) :=
      List.intercalate_cons_cons
    rw [hnext, ih next, List.append_assoc]
    rfl

theorem ofBytes_printRest (spaced : Bool) (tokens : List PlainToken) :
    Token.ofBytes (printRest spaced tokens) = .ok (tokens.map toToken) := by
  induction tokens with
  | nil => exact Token.ofBytes_nil skipBlank_nil
  | cons token tokens ih =>
    have ends : Bytes.EndsRun (printRest spaced tokens) := by
      cases tokens with
      | nil => exact Bytes.endsRun_nil
      | cons next tokens => exact PlainOperand.endsRun_space _
    have hskip : Token.ofBytes (printRest spaced (token :: tokens)) =
        Token.ofBytes (token.write spaced ++ printRest spaced tokens) :=
      Token.ofBytes_congr (skipBlank_of_isBlank (by decide) _)
    rw [hskip, ofBytes_write ends, ih]
    rfl

/-- Reading what was printed gives back every token, nested operands included. -/
theorem ofBytes_print (spaced : Bool) (tokens : List PlainToken) :
    Token.ofBytes (print spaced tokens) = .ok (tokens.map toToken) := by
  cases tokens with
  | nil => exact Token.ofBytes_nil skipBlank_nil
  | cons token tokens =>
    have hskip : Token.ofBytes (printRest spaced (token :: tokens)) =
        Token.ofBytes (print spaced (token :: tokens)) := by
      rw [print_cons]
      exact Token.ofBytes_congr (skipBlank_of_isBlank (by decide) _)
    rw [← hskip]
    exact ofBytes_printRest spaced (token :: tokens)

example : print false
    [.operand (.array [.literal (Bytes.ofUtf8 "a)"), .integer (-120)]),
      .operator ⟨"TJ", by decide +kernel, by decide +kernel, by decide⟩] =
        Bytes.ofUtf8 "[(a\\)) -120] TJ" := by
  decide +kernel

example : print true [.operand (.dictionary [("A B", .hex [0x4F]), ("A B", .array [])])] =
    Bytes.ofUtf8 "<< /A#20B <4F> /A#20B [ ] >>" := by
  decide +kernel

end PlainToken

end PdfContent
