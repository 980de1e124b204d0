import PdfContent.Proofs.CursorOperands
import PdfContent.Proofs.TokenLookahead

/-!
What a cursor reads of tokens. The data of an inline image is sliced out of the input between the
place where it began and its mark, so what the cursor has passed over is carried along until the
mark is found. With the images, one turn of the loop follows the reader of tokens, and the whole
lexer the reader of the whole input.
-/

namespace PdfContent

theorem skipBlank_length_lt {b : UInt8} (gap : Byte.isGap b = true) (s : Bytes) :
    (skipBlank (b :: s)).length < (b :: s).length := by
  rw [skipBlank, List.length_cons]
  cases blank : Byte.isBlank b with
  | true => exact Nat.lt_succ_of_le (skipBlank_length_le s)
  | false =>
    rw [Byte.isGap, blank, Bool.false_or] at gap
    rw [if_neg Bool.false_ne_true, if_pos gap]
    exact Nat.lt_succ_of_le
      (Nat.le_trans (skipBlank_length_le (skipComment s)) (skipComment_length_le s))

namespace Token

theorem afterDataMark?_eq_some {s r : Bytes} :
    afterDataMark? s = some r ↔ ∃ u, s = 0x49 :: 0x44 :: u ∧
      (u = [] ∧ r = [] ∨ ∃ b, Byte.isBlank b = true ∧ u = b :: r) := by
  constructor
  · intro h
    unfold afterDataMark? at h
    split at h
    · rename_i b t ht
      split_ifs at h with blank
      exact ⟨b :: t, Bytes.afterWord?_eq_some.1 ht, .inr ⟨b, blank, Option.some.inj h ▸ rfl⟩⟩
    · rename_i ht
      exact ⟨[], Bytes.afterWord?_eq_some.1 ht, .inl ⟨rfl, (Option.some.inj h).symm⟩⟩
    · cases h
  · rintro ⟨u, rfl, ⟨rfl, rfl⟩ | ⟨b, blank, rfl⟩⟩
    · rfl
    · exact afterDataMark?_blank blank r

theorem isSome_afterDataMark? (s : Bytes) :
    (afterDataMark? s).isSome =
      (s[0]? == some 0x49 && s[1]? == some 0x44 && s[2]?.all Byte.isBlank) := by
  rw [Bool.eq_iff_iff, Option.isSome_iff_exists]
  simp only [afterDataMark?_eq_some, Bool.and_eq_true, beq_iff_eq]
  constructor
  · rintro ⟨_, u, rfl, ⟨rfl, -⟩ | ⟨b, blank, rfl⟩⟩
    · exact ⟨⟨rfl, rfl⟩, rfl⟩
    · exact ⟨⟨rfl, rfl⟩, blank⟩
  · rintro ⟨⟨first, second⟩, third⟩
    obtain ⟨u, rfl⟩ : ∃ u, s = 0x49 :: 0x44 :: u := by
      rcases s with _ | ⟨a, _ | ⟨b, u⟩⟩
      · cases first
      · cases second
      · cases first
        cases second
        exact ⟨u, rfl⟩
    cases u with
    | nil => exact ⟨[], [], rfl, .inl ⟨rfl, rfl⟩⟩
    | cons b u => exact ⟨u, b :: u, rfl, .inr ⟨b, third, rfl⟩⟩

theorem afterEndMark?_eq_some {s r : Bytes} :
    afterEndMark? s = some r ↔ s = 0x45 :: 0x49 :: r ∧ ∀ b ∈ r.head?, endsMark b = true :=
  ⟨afterEndMark?_split, fun ⟨shape, ends⟩ => shape ▸ afterEndMark?_word ends⟩

theorem isSome_afterEndMark? (b c : UInt8) (s : Bytes) :
    (afterEndMark? (b :: c :: s)).isSome = (b == 0x45 && c == 0x49 && s.head?.all endsMark) := by
  rw [Bool.eq_iff_iff, Option.isSome_iff_exists]
  simp only [afterEndMark?_eq_some, List.cons.injEq, Bool.and_eq_true, beq_iff_eq,
    Option.all_eq_true]
  constructor
  · rintro ⟨r, ⟨rfl, rfl, rfl⟩, ends⟩
    exact ⟨⟨rfl, rfl⟩, ends⟩
  · rintro ⟨⟨rfl, rfl⟩, ends⟩
    exact ⟨s, ⟨rfl, rfl, rfl⟩, ends⟩

end Token

namespace Lexer

variable {input : Bytes} {s : State} {clock : Nat}

theorem atDataMark_run (s : State) :
    atDataMark input s = some (.ok (Token.afterDataMark? (s.rest input)).isSome, s) := by
  rw [Token.isSome_afterDataMark?, ← State.getElem?_input, ← State.getElem?_input,
    ← State.getElem?_input]
  rfl

theorem passDataMark_follows {r : Bytes} (mark : Token.afterDataMark? (s.rest input) = some r) :
    Follows input (s.position + 1) (passDataMark input) s (.ok ((), r)) := by
  obtain ⟨u, ahead, behind⟩ := Token.afterDataMark?_eq_some.1 mark
  refine .advance_two ahead fun inside rest => .peek ?_
  rw [rest]
  rcases behind with ⟨rfl, rfl⟩ | ⟨b, blank, rfl⟩
  · exact .pure () inside rest
  · simp only [List.head?_cons, if_pos blank]
    exact (Follows.advanced rest).weaken (Nat.le_succ _)

theorem getElem?_ahead {b : UInt8} {r : Bytes} (ahead : s.rest input = b :: r) :
    input[s.position]? = some b := by
  have here : input[s.position]? = (s.rest input)[0]? := State.getElem?_input 0
  rwa [ahead] at here

theorem spellsEnd_run {b c : UInt8} {r : Bytes} (ahead : s.rest input = b :: c :: r) :
    spellsEnd input s.position s = some (.ok (b == 0x45 && c == 0x49), s) := by
  have second : input[s.position + 1]? = some c := by
    rw [State.getElem?_input, ahead]
    rfl
  rw [spellsEnd, bind_run (byteAt_run (getElem?_ahead ahead) s)]
  by_cases first : (b == 0x45) = true
  · rw [if_pos first, bind_run (byteAt_run second s), first]
    rfl
  · rw [if_neg first, Bool.eq_false_iff.2 first]
    rfl

structure Holds (input : Bytes) (start : Nat) (held : Bytes) (s : State) : Prop where
  split : input.drop start = held ++ s.rest input
  width : s.position = start + held.length
  inside : s.position ≤ input.length

def endsApart (held : Bytes) : Bool := held.getLast?.all Byte.isBlank

theorem Holds.move {start : Nat} {held r : Bytes} {b : UInt8} (h : Holds input start held s)
    (ahead : s.rest input = b :: r) : Holds input start (held ++ [b]) (s.move 1) := by
  refine ⟨?_, ?_, State.lt_of_rest ahead⟩
  · rw [h.split, ahead, State.rest_move_one ahead, List.append_assoc]
    rfl
  · change s.position + 1 = _
    rw [h.width, List.length_append, List.length_singleton]
    omega

theorem Holds.byteBefore {start : Nat} {held : Bytes} {b : UInt8}
    (h : Holds input start (held ++ [b]) s) :
    Lexer.byteBefore input s.position s = some (.ok b, s) := by
  have width := h.width
  rw [List.length_append, List.length_singleton, ← Nat.add_assoc] at width
  rw [width]
  refine byteAt_run ?_ s
  rw [← List.getElem?_drop, h.split, List.append_assoc, List.getElem?_append_right (Nat.le_refl _),
    Nat.sub_self]
  rfl

theorem standsApart_run {start : Nat} {held : Bytes} (h : Holds input start held s) :
    standsApart input start s.position s = some (.ok (endsApart held), s) := by
  have width := h.width
  rcases List.eq_nil_or_concat held with rfl | ⟨held, b, rfl⟩
  · have still : s.position = start := width
    rw [standsApart, if_pos (beq_iff_eq.2 still)]
    rfl
  · rw [List.concat_eq_append] at h width ⊢
    have moved : ¬ (s.position == start) = true := by
      rw [beq_iff_eq, width, List.length_append, List.length_singleton]
      omega
    rw [standsApart, if_neg moved, bind_run h.byteBefore, endsApart, List.getLast?_concat]
    rfl

theorem dataEnd_run {start : Nat} {held : Bytes} (h : Holds input start held s) :
    dataEnd input start s.position s = some (.ok (start + (Token.trimData held).length), s) := by
  have width := h.width
  rcases List.eq_nil_or_concat held with rfl | ⟨held, b, rfl⟩
  · have still : s.position = start := width
    rw [dataEnd, if_neg (by omega)]
    exact congrArg (fun n => some (Except.ok n, s)) still
  · rw [List.concat_eq_append] at h width ⊢
    rw [List.length_append, List.length_singleton] at width
    rw [dataEnd, if_pos (by omega), bind_run h.byteBefore, Token.trimData, List.getLast?_concat]
    dsimp only
    split_ifs
    · rw [List.dropLast_concat]
      exact congrArg (fun n => some (Except.ok n, s)) (by omega)
    · rw [List.length_append, List.length_singleton]
      exact congrArg (fun n => some (Except.ok n, s)) width

theorem trimData_prefix (held : Bytes) : ∃ blank, held = Token.trimData held ++ blank := by
  rcases List.eq_nil_or_concat held with rfl | ⟨held, b, rfl⟩
  · exact ⟨[], rfl⟩
  · rw [List.concat_eq_append, Token.trimData, List.getLast?_concat]
    dsimp only
    split_ifs
    · exact ⟨[b], by rw [List.dropLast_concat]⟩
    · exact ⟨[], (List.append_nil _).symm⟩

theorem data_run {start : Nat} {held : Bytes} (h : Holds input start held s) :
    slice input start (start + (Token.trimData held).length) s =
      some (.ok (Token.trimData held), s) := by
  obtain ⟨blank, split⟩ := trimData_prefix held
  have shorter := congrArg List.length split
  rw [List.length_append] at shorter
  have width := h.width
  have inside := h.inside
  have ordered : start ≤ start + (Token.trimData held).length ∧
      start + (Token.trimData held).length ≤ input.length := by omega
  have taken : (input.drop start).take (Token.trimData held).length = Token.trimData held := by
    rw [h.split, List.take_append_of_le_length (by omega)]
    conv_lhs => arg 2; rw [split]
    exact List.take_left
  rw [slice, if_pos ordered, Nat.add_sub_cancel_left, taken]

def heldData (held : Bytes) : Option (Bytes × Bytes) → Except SyntaxFault (Bytes × Bytes)
  | none => .error .imageWithoutEnd
  | some r => .ok (Token.trimData (held ++ r.1), r.2)

theorem heldData_map (held : Bytes) (b : UInt8) (rest : Option (Bytes × Bytes)) :
    heldData held (rest.map fun r => (b :: r.1, r.2)) = heldData (held ++ [b]) rest := by
  cases rest with
  | none => rfl
  | some r =>
    exact congrArg (fun v => Except.ok (Token.trimData v, r.2)) (List.append_cons ..)

theorem atEndMark_run {start : Nat} {held r : Bytes} {b c : UInt8} (h : Holds input start held s)
    (ahead : s.rest input = b :: c :: r) :
    atEndMark input start s = some
      (.ok (if endsApart held then Token.afterEndMark? (b :: c :: r) else none).isSome, s) := by
  have next : peekAt input 2 s = some (.ok r.head?, s) := by
    rw [peekAt, State.getElem?_input, ahead, List.head?_eq_getElem?]
    rfl
  have mark : (if endsApart held then Token.afterEndMark? (b :: c :: r) else none).isSome =
      (b == 0x45 && c == 0x49 && endsApart held && r.head?.all Token.endsMark) := by
    cases endsApart held with
    | true => rw [if_pos rfl, Token.isSome_afterEndMark?, Bool.and_true]
    | false => rw [if_neg Bool.false_ne_true, Bool.and_false, Bool.false_and]; rfl
  rw [mark]
  change (spellsEnd input s.position >>= _) s = _
  rw [bind_run (spellsEnd_run ahead), bind_run (standsApart_run h), bind_run next]
  rfl

theorem imageData_follows {start : Nat} {held : Bytes} (h : Holds input start held s)
    (enough : (s.rest input).length < clock) :
    Follows input s.position (imageData input start clock) s
      (heldData held (Token.spanData (endsApart held) (s.rest input))) := by
  induction clock generalizing s held with
  | zero => exact absurd enough (Nat.not_lt_zero _)
  | succ clock ih =>
    have length := State.length_rest input s
    refine .position ?_
    rcases ahead : s.rest input with _ | ⟨b, _ | ⟨c, r⟩⟩
    · rw [ahead, List.length_nil] at length
      rw [if_neg (by omega)]
      exact .fail .imageWithoutEnd h.inside
    · rw [ahead, List.length_singleton] at length
      have noMark : (if endsApart held then Token.afterEndMark? [b] else none) = none := by
        cases endsApart held with
        | false => rfl
        | true =>
          cases mark : Token.afterEndMark? [b] with
          | none => rfl
          | some r => cases (Token.afterEndMark?_split mark).1
      rw [if_neg (by omega), Token.spanData_cons noMark]
      exact .fail .imageWithoutEnd h.inside
    · rw [ahead] at length enough
      rw [List.length_cons, List.length_cons] at length
      rw [if_pos (by omega)]
      refine .ran (atEndMark_run h ahead) rfl ?_
      cases mark : (if endsApart held then Token.afterEndMark? (b :: c :: r) else none) with
      | none =>
        rw [Token.spanData_cons mark, heldData_map]
        simp only [Option.isSome_none, Bool.false_eq_true, if_false]
        refine (Follows.advance_one ahead fun inside rest => ?_).weaken (Nat.le_succ _)
        have on := ih (h.move ahead) (by rw [rest]; exact Nat.lt_of_succ_lt_succ enough)
        rwa [rest, endsApart, List.getLast?_concat] at on
      | some behind =>
        cases apart : endsApart held with
        | false =>
          rw [apart] at mark
          cases mark
        | true =>
          rw [apart, if_pos rfl] at mark
          obtain ⟨shape, -⟩ := Token.afterEndMark?_split mark
          rw [Token.spanData_end mark, heldData, List.append_nil]
          simp only [Option.isSome_some, if_true]
          refine .position (.ran (dataEnd_run h) rfl (.ran (data_run h) rfl ?_))
          exact (Follows.advance_two (ahead.trans shape) fun inside rest =>
            .pure (Token.trimData held) inside rest).weaken (Nat.le_succ _)

def ComesTo (input : Bytes) (least : Nat) (s : State) : Prop :=
  least ≤ s.position ∨
    least ≤ s.position + 1 ∧ ∃ b ∈ (s.rest input).head?, Byte.isGap b = true ∨ b = Byte.slash

theorem ComesTo.skipped {least : Nat} {t : State} (h : ComesTo input least s)
    (moved : Moved input s.position s t) (rest : t.rest input = skipBlank (s.rest input)) :
    least ≤ t.position ∨ least ≤ t.position + 1 ∧ (t.rest input).head? = some Byte.slash := by
  have onward := moved.least
  rcases h with less | ⟨less, b, head, first⟩
  · exact .inl (Nat.le_trans less onward)
  · obtain ⟨r, ahead⟩ : ∃ r, s.rest input = b :: r := List.head?_eq_some_iff.1 head
    cases gap : Byte.isGap b with
    | true =>
      have shorter := skipBlank_length_lt gap r
      rw [← ahead, ← rest, State.length_rest, State.length_rest] at shorter
      exact .inl (by omega)
    | false =>
      obtain rfl : b = Byte.slash := first.resolve_left (by rw [gap]; exact Bool.false_ne_true)
      rw [ahead, skipBlank_of_not_isGap gap] at rest
      exact .inr ⟨by omega, congrArg List.head? rest⟩

theorem markedData_follows {r : Bytes} (mark : Token.afterDataMark? (s.rest input) = some r)
    (enough : (s.rest input).length ≤ clock) :
    Follows input (s.position + 1) (markedData input clock) s
      (heldData [] (Token.spanData true r)) := by
  refine (passDataMark_follows mark).andThen fun t moved rest => .position ?_
  have shorter := Token.afterDataMark?_length mark
  have holds : Holds input t.position [] t := ⟨rfl, rfl, moved.inside⟩
  have data : Follows input _ (imageData input t.position clock) t _ :=
    imageData_follows holds (by rw [rest]; omega)
  rwa [rest] at data

theorem imageRest_follows {least : Nat} (entries : List (String × Operand))
    (comes : ComesTo input least s) (inside : s.position ≤ input.length)
    (enough : 2 * (s.rest input).length + 2 ≤ clock) :
    Follows input least (imageRest input clock entries) s
      (Token.readImage entries (s.rest input)) := by
  induction clock generalizing s entries least with
  | zero => exact absurd enough (by omega)
  | succ clock ih =>
    rw [Token.readImage_eq]
    refine (skip_follows inside (by omega)).andThen_to fun t moved rest => ?_
    have comes := comes.skipped moved rest
    have shorter := skipBlank_length_le (s.rest input)
    rw [← rest] at shorter ⊢
    refine .peek ?_
    cases ahead : t.rest input with
    | nil =>
      have less : least ≤ t.position := comes.resolve_right fun ⟨_, head⟩ => by
        rw [ahead] at head
        cases head
      exact (Follows.fail .imageWithoutData moved.inside).weaken less
    | cons b r =>
      simp only [List.head?_cons]
      refine .ran (atDataMark_run t) rfl ?_
      rw [ahead]
      have soon : least ≤ t.position + 1 := by omega
      cases mark : Token.afterDataMark? (b :: r) with
      | some u =>
        simp only [Option.isSome_some, if_true]
        refine Follows.weaken ?_ soon
        have data : Follows input _ (markedData input clock) t _ :=
          markedData_follows (ahead ▸ mark) (by omega)
        have image := data.map (g := fun data => (entries.reverse, data))
        cases span : Token.spanData true u with
        | none =>
          rw [span] at image
          exact image
        | some r =>
          rw [span] at image
          exact image
      | none =>
        simp only [Option.isSome_none, Bool.false_eq_true, if_false]
        by_cases slash : (b == Byte.slash) = true
        · simp only [if_pos slash]
          obtain rfl := beq_iff_eq.1 slash
          rw [ahead, List.length_cons] at shorter
          refine (entry_follows (readsValues input clock) ahead
            (by rw [ahead, List.length_cons]; omega)
            (g := fun entry r => Token.readImage (entry :: entries) r)
            fun key value u inside further => ?_).weaken soon
          exact ih ((key, value) :: entries) (.inl (Nat.le_refl _)) inside (by omega)
        · simp only [if_neg slash]
          have less : least ≤ t.position := comes.resolve_right fun ⟨_, head⟩ => by
            rw [ahead, List.head?_cons, Option.some.injEq] at head
            exact slash (beq_iff_eq.2 head)
          exact (Follows.fail .imageKeyExpected moved.inside).weaken less

theorem called_image_follows (inside : s.position ≤ input.length)
    (enough : 2 * (s.rest input).length + 2 ≤ clock) :
    Follows input s.position (called .image (imageRest input clock [])) s
      (Token.readImage [] (s.rest input)) := by
  by_cases start : ∃ b ∈ (s.rest input).head?, Byte.isGap b = true ∨ b = Byte.slash
  · have comes : ComesTo input (s.position + 1) s := .inr ⟨Nat.le_refl _, start⟩
    have reads := (imageRest_follows [] comes inside enough).called_onward .image trivial
    exact reads.weaken (Nat.le_succ _)
  · have none : ∀ b ∈ (s.rest input).head?, Byte.isGap b = false ∧ b ≠ Byte.slash :=
      fun b head => ⟨Bool.eq_false_iff.2 fun gap => start ⟨b, head, .inl gap⟩,
        fun slash => start ⟨b, head, .inr slash⟩⟩
    exact (imageRest_follows [] (.inl (Nat.le_refl _)) inside enough).called_shorter .image
      trivial ⟨rfl, none⟩ fun _ _ => Token.readImage_length

theorem closing_follows {r : Bytes} (ahead : s.rest input = Byte.greater :: r) :
    Follows input (s.position + 1) (closing input) s (Token.readTokens Byte.greater r) := by
  rw [Token.readTokens, if_neg (by decide), if_pos (beq_self_eq_true _)]
  refine .position (.peekAt 1 ?_)
  rw [ahead, List.getElem?_cons_succ, ← List.head?_eq_getElem?]
  cases double : Bytes.after? Byte.greater r with
  | some u =>
    obtain rfl := Bytes.after?_eq_some.1 double
    refine .advance_two ahead fun inside rest => ?_
    have split : s.rest input = [Byte.greater, Byte.greater] ++ (s.move 2).rest input := by
      rw [ahead, rest]
      rfl
    refine .ran (passed_run split (Nat.le_add_right ..) inside) rfl ?_
    have text : Bytes.toText [Byte.greater, Byte.greater] = ">>" := by decide +kernel
    rw [text]
    exact .pure _ inside rest
  | none =>
    have single := Bytes.head?_ne_of_after? double
    rw [if_neg (by simpa using single)]
    refine .advance_one ahead fun inside rest => ?_
    have split : s.rest input = [Byte.greater] ++ (s.move 1).rest input := by
      rw [ahead, rest]
      rfl
    refine .ran (passed_run split (Nat.le_add_right ..) inside) rfl ?_
    have text : Bytes.toText [Byte.greater] = ">" := by decide +kernel
    rw [text]
    exact .pure _ inside rest

theorem word_follows {b : UInt8} {r : Bytes} (ahead : s.rest input = b :: r)
    (start : Operand.isWordStart b = true) (lone : ¬ Token.isLoneDelimiter b = true)
    (greater : ¬ (b == Byte.greater) = true) (enough : 2 * (s.rest input).length ≤ clock) :
    Follows input (s.position + 1) (word input clock) s (Token.readTokens b r) := by
  have length := State.length_rest input s
  have some := State.lt_of_rest ahead
  rw [Token.readTokens, if_neg lone, if_neg greater, if_pos start]
  refine Follows.andThen (a := (Operand.spanRegular (b :: r)).1)
    (called_keyword_follows ahead start (by omega)) fun t moved rest => ?_
  by_cases image : ((Operand.spanRegular (b :: r)).1 == Bytes.ofLatin "BI") = true
  · simp only [if_pos image]
    have onward := moved.least
    have length' := State.length_rest input t
    have read : Follows input _ (called .image (imageRest input clock [])) t _ :=
      called_image_follows moved.inside (by omega)
    rw [rest] at read
    exact read.map
  · simp only [if_neg image]
    exact .pure _ moved.inside rest

theorem stray_follows {b : UInt8} {r : Bytes} (ahead : s.rest input = b :: r)
    (own : Token.isStrayByte b = true) (enough : (s.rest input).length < clock) :
    Follows input (s.position + 1) (stray input clock) s
      (.ok ([.stray (Bytes.toText (b :: r.takeWhile Token.isStrayByte))],
        r.dropWhile Token.isStrayByte)) := by
  have run := passWhile_follows Token.isStrayByte (Nat.le_of_lt (State.lt_of_rest ahead)) enough
  rw [ahead, List.dropWhile_cons_of_pos own] at run
  refine .position ((run.further ?_).andThen fun t moved rest => .position ?_)
  · rw [ahead]
    exact Nat.lt_succ_of_le (dropWhile_length_le _ r)
  · have onward : ¬ (t.position == s.position) = true := by
      have least := moved.least
      rw [beq_iff_eq]
      omega
    have split : s.rest input = (b :: r.takeWhile Token.isStrayByte) ++ t.rest input := by
      rw [ahead, rest, List.cons_append, List.takeWhile_append_dropWhile]
    rw [if_neg onward]
    refine .ran (passed_run split (Nat.le_of_succ_le moved.least) moved.inside) rfl ?_
    exact .pure _ moved.inside rest

theorem isStrayByte_of_not : ∀ b, Byte.isGap b = false → ¬ Token.isLoneDelimiter b = true →
    ¬ (b == Byte.greater) = true → ¬ Operand.isWordStart b = true → ¬ Operand.isStart b = true →
    Token.isStrayByte b = true :=
  Byte.forall_of_fin (by decide +kernel)

theorem step_follows {b : UInt8} {r : Bytes} (ahead : s.rest input = b :: r)
    (apart : Byte.isGap b = false) (enough : 2 * (s.rest input).length + 1 ≤ clock) :
    Follows input (s.position + 1) (step input b clock) s (Token.readTokens b r) := by
  rw [step]
  by_cases lone : Token.isLoneDelimiter b = true
  · rw [if_pos lone, Token.readTokens, if_pos lone]
    exact .advance_one ahead fun inside rest => .pure _ inside rest
  by_cases greater : (b == Byte.greater) = true
  · rw [if_neg lone, if_pos greater]
    obtain rfl := beq_iff_eq.1 greater
    exact closing_follows ahead
  by_cases start : Operand.isWordStart b = true
  · rw [if_neg lone, if_neg greater, if_pos start]
    exact word_follows ahead start lone greater (by omega)
  rw [if_neg lone, if_neg greater, if_neg start, Token.readTokens, if_neg lone, if_neg greater,
    if_neg start]
  by_cases operand : Operand.isStart b = true
  · rw [if_pos operand, if_pos operand]
    have starts : startsOperand b = true := by rw [startsOperand, operand, Bool.true_or]
    have value := readsValues input clock s b r ahead starts enough
    exact (value.called_onward .value trivial).map
  · rw [if_neg operand, if_neg operand]
    exact stray_follows ahead (isStrayByte_of_not b apart lone greater start operand) (by omega)

def readTo (tokens : List Token) (rest : Except SyntaxFault (List Token)) :
    Except SyntaxFault (List Token × Bytes) :=
  rest.map fun more => (tokens ++ more, [])

theorem readTo_nil (tokens : List Token) : readTo tokens (.ok []) = .ok (tokens, []) :=
  congrArg (fun all => Except.ok (all, [])) (List.append_nil tokens)

theorem readTo_append (tokens : List Token) (read : Except SyntaxFault (List Token × Bytes)) :
    readTo tokens (read.bind fun r => (Token.ofBytes r.2).map (r.1 ++ ·)) =
      read.bind fun r => readTo (tokens ++ r.1) (Token.ofBytes r.2) := by
  cases read with
  | error fault => rfl
  | ok r =>
    change readTo tokens ((Token.ofBytes r.2).map _) = readTo (tokens ++ r.1) (Token.ofBytes r.2)
    cases Token.ofBytes r.2 with
    | error fault => rfl
    | ok more => exact congrArg (fun all => Except.ok (all, [])) (List.append_assoc ..).symm

theorem tokensFrom_follows (tokens : List Token) (inside : s.position ≤ input.length)
    (enough : 2 * (s.rest input).length + 2 ≤ clock) :
    Follows input s.position (tokensFrom input clock tokens) s
      (readTo tokens (Token.ofBytes (s.rest input))) := by
  induction clock generalizing s tokens with
  | zero => exact absurd enough (by omega)
  | succ clock ih =>
    rw [Token.ofBytes_eq]
    refine (skip_follows inside (by omega)).andThen fun t moved rest => ?_
    have shorter := skipBlank_length_le (s.rest input)
    refine .peek ?_
    rw [← rest] at shorter ⊢
    cases ahead : t.rest input with
    | nil => exact (readTo_nil tokens).symm ▸ .pure tokens moved.inside ahead
    | cons b r =>
      have apart := skipBlank_start (rest.symm.trans ahead)
      have turn : Follows input _ (step input b clock) t _ := step_follows ahead apart (by omega)
      have read := turn.called_onward .step ⟨b, ahead ▸ rfl, apart⟩
      dsimp only
      rw [readTo_append]
      refine (read.bind fun more u moved' same => ?_).weaken (Nat.le_succ _)
      have further := Token.readTokens_length same
      rw [← ahead] at further
      exact ih (tokens ++ more) moved'.inside (by omega)

/-- On every input, with enough time on the clock the lexer ends, never having looked for a byte or
a slice that is not there. It gives the tokens of the input, or the fault that keeps it from being
read, and stands at the end when it has read it. Each routine it called was called where it may be,
and left the cursor inside the input and further on than before; blanks may have left it where it
was, and so may an operand or an image that failed for want of its first byte. -/
theorem tokenize_sound (input : Bytes) (extra : Nat) :
    ∃ last : State,
      tokenize input (2 * input.length + 2 + extra) =
        some ((Token.ofBytes input).mapError Fault.wrong, last) ∧
      last.position ≤ input.length ∧
      (∀ tokens, Token.ofBytes input = .ok tokens → last.position = input.length) ∧
      ∀ call ∈ last.calls, call.Sound input := by
  have start : (({} : State).rest input) = input := List.drop_zero
  have run : Follows input _ (tokensFrom input (2 * input.length + 2 + extra) []) {} _ :=
    tokensFrom_follows [] (Nat.zero_le _) (by rw [start]; omega)
  rw [start] at run
  have sound : ∀ {last : State}, Moved input 0 {} last → ∀ call ∈ last.calls, call.Sound input :=
    fun moved call mem => (moved.calls call mem).resolve_left List.not_mem_nil
  cases result : Token.ofBytes input with
  | error cause =>
    rw [result] at run
    obtain ⟨last, run, moved⟩ := run.of_error
    exact ⟨last, run, moved.inside, nofun, sound moved⟩
  | ok tokens =>
    rw [result] at run
    obtain ⟨last, run, moved, rest⟩ := Follows.of_ok (a := tokens) (r := []) run
    have atEnd := congrArg List.length rest
    rw [State.length_rest, List.length_nil] at atEnd
    have inside := moved.inside
    exact ⟨last, run, inside, fun _ _ => by omega, sound moved⟩

end Lexer

end PdfContent
