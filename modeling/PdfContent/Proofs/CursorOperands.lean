import PdfContent.Proofs.CursorStrings

/-!
What a cursor reads of operands. An operand, the rest of an array and the rest of a dictionary call
one another, each with one turn less on the clock; two turns for each byte ahead are enough, one for
the operand that stands there and one for the container around it.
-/

namespace PdfContent

theorem Bytes.head?_ne_of_after? {b : UInt8} {s : Bytes} (h : Bytes.after? b s = none) :
    s.head? ≠ some b := fun head => by
  have other := Bytes.after?_eq_none_iff.1 h b head
  exact absurd (beq_self_eq_true b) (Bool.eq_false_iff.1 other)

namespace Operand

theorem read_eq (s : Bytes) : read s = (readStart [] s).bind resume :=
  readWithin_eq [] s

variable {b : UInt8} {s : Bytes}

theorem read_name : read (Byte.slash :: s) = .ok (.name (readName s).1, (readName s).2) := by
  rw [read_eq]
  rfl

theorem read_literal :
    read (Byte.openParen :: s) =
      (Lexer.heldLiteral [] (readLiteral 0 s)).map fun r => (.literal r.1, r.2) := by
  rw [read_eq, readStart, if_pos (beq_self_eq_true _)]
  cases readLiteral 0 s <;> rfl

theorem read_hex (other : Bytes.after? Byte.less s = none) :
    read (Byte.less :: s) = (readHex none s).map fun r => (.hex r.1, r.2) := by
  rw [read_eq, readStart, if_neg (by decide), if_pos (beq_self_eq_true _), other]
  cases readHex none s <;> rfl

theorem read_number (opening : b ≠ Byte.openParen ∧ b ≠ Byte.less ∧ b ≠ Byte.openBracket)
    (slash : b ≠ Byte.slash) (number : isNumberStart b = true) :
    read (b :: s) = .ok (readNumber (b :: s)) := by
  rw [read_eq, readStart]
  simp only [beq_iff_eq, if_neg opening.1, if_neg opening.2.1, if_neg opening.2.2, if_neg slash,
    if_pos number]
  rfl

theorem read_word (opening : b ≠ Byte.openParen ∧ b ≠ Byte.less ∧ b ≠ Byte.openBracket)
    (slash : b ≠ Byte.slash) (number : ¬ isNumberStart b = true) (word : isWordStart b = true) :
    read (b :: s) = .ok (ofWord (spanRegular (b :: s)).1.toText, (spanRegular (b :: s)).2) := by
  rw [read_eq, readStart]
  simp only [beq_iff_eq, if_neg opening.1, if_neg opening.2.1, if_neg opening.2.2, if_neg slash,
    if_neg number, if_pos word]
  rfl

theorem read_unexpected (opening : b ≠ Byte.openParen ∧ b ≠ Byte.less ∧ b ≠ Byte.openBracket)
    (slash : b ≠ Byte.slash) (number : ¬ isNumberStart b = true) (word : ¬ isWordStart b = true) :
    read (b :: s) = .error (.unexpectedByte b) := by
  rw [read_eq, readStart]
  simp only [beq_iff_eq, if_neg opening.1, if_neg opening.2.1, if_neg opening.2.2, if_neg slash,
    if_neg number, if_neg word]
  rfl

end Operand

namespace Lexer

variable {β : Type} {input : Bytes} {s : State} {clock : Nat}

def ReadsValues (input : Bytes) (clock : Nat) : Prop :=
  ∀ (s : State) (b : UInt8) (r : Bytes), s.rest input = b :: r → startsOperand b = true →
    2 * (s.rest input).length + 1 ≤ clock →
    Follows input (s.position + 1) (value input clock) s (Operand.read (b :: r))

def ReadsArrays (input : Bytes) (clock : Nat) : Prop :=
  ∀ (s : State) (items : List Operand), s.position ≤ input.length →
    2 * (s.rest input).length + 2 ≤ clock →
    Follows input s.position (arrayRest input clock items) s
      (Operand.readWithin [.array items] (s.rest input))

def ReadsDictionaries (input : Bytes) (clock : Nat) : Prop :=
  ∀ (s : State) (entries : List (String × Operand)), s.position ≤ input.length →
    2 * (s.rest input).length + 2 ≤ clock →
    Follows input s.position (dictionaryRest input clock entries) s
      (Operand.readWithin [.dictionary entries] (s.rest input))

theorem skip_follows (inside : s.position ≤ input.length)
    (enough : (s.rest input).length < clock) :
    Follows input s.position (skip input clock) s (.ok ((), skipBlank (s.rest input))) := by
  refine (passBlank_follows inside enough).called .blank trivial (.inr ⟨rfl, fun _ _ _ => ?_⟩)
  exact .inr trivial

theorem value_fails (none : ∀ b ∈ (s.rest input).head?, startsOperand b = false)
    (inside : s.position ≤ input.length) :
    Follows input s.position (value input (clock + 1)) s (Operand.read (s.rest input)) := by
  refine .peek ?_
  cases ahead : s.rest input with
  | nil =>
    rw [Operand.read_eq]
    exact .fail .unexpectedEnd inside
  | cons b r =>
    have other := none b (ahead ▸ rfl)
    simp only [startsOperand, Operand.isStart, Bool.or_eq_false_iff] at other
    obtain ⟨⟨⟨⟨⟨paren, less⟩, bracket⟩, slash⟩, number⟩, word⟩ := other
    rw [Operand.read_unexpected ⟨by simpa using paren, by simpa using less, by simpa using bracket⟩
      (by simpa using slash) (by simp [number]) (by simp [word])]
    simp only [List.head?_cons, paren, less, bracket, slash, number, word, Bool.false_eq_true,
      if_false]
    exact .fail (.unexpectedByte b) inside

theorem called_value_follows (values : ReadsValues input clock) (inside : s.position ≤ input.length)
    (enough : 2 * (s.rest input).length + 1 ≤ clock) :
    Follows input s.position (called .value (value input clock)) s
      (Operand.read (s.rest input)) := by
  by_cases start : ∃ b ∈ (s.rest input).head?, startsOperand b = true
  · obtain ⟨b, head, start⟩ := start
    obtain ⟨r, ahead⟩ : ∃ r, s.rest input = b :: r := List.head?_eq_some_iff.1 head
    have reads := (values s b r ahead start enough).called_onward .value trivial
    exact ahead ▸ reads.weaken (Nat.le_succ _)
  · have none : ∀ b ∈ (s.rest input).head?, startsOperand b = false := fun b head =>
      Bool.eq_false_iff.2 fun yes => start ⟨b, head, yes⟩
    obtain ⟨clock, rfl⟩ : ∃ n, clock = n + 1 := ⟨clock - 1, by omega⟩
    exact (value_fails none inside).called_shorter .value trivial ⟨rfl, none⟩
      fun _ _ => Operand.read_length

theorem called_name_follows {r : Bytes} (ahead : s.rest input = Byte.slash :: r)
    (enough : (s.rest input).length ≤ clock) :
    Follows input (s.position + 1) (called .name (name input clock)) s
      (.ok (Operand.readName r)) :=
  (name_follows ahead enough).called_onward .name (congrArg List.head? ahead)

theorem called_number_follows {b : UInt8} {r : Bytes} (ahead : s.rest input = b :: r)
    (start : Operand.isNumberStart b = true) (enough : (s.rest input).length < clock) :
    Follows input (s.position + 1) (called .number (number input clock)) s
      (.ok (Operand.readNumber (b :: r))) := by
  have shorter : (Operand.readNumber (b :: r)).2.length < (s.rest input).length := by
    rw [ahead]
    exact Operand.readNumber_length start
  exact ((number_follows ahead start enough).further shorter).called_onward .number
    ⟨b, ahead ▸ rfl, start⟩

theorem called_keyword_follows {b : UInt8} {r : Bytes} (ahead : s.rest input = b :: r)
    (word : Operand.isWordStart b = true) (enough : (s.rest input).length < clock) :
    Follows input (s.position + 1) (called .keyword (keyword input clock)) s
      (.ok (Operand.spanRegular (b :: r))) := by
  have inside := Nat.le_of_lt (State.lt_of_rest ahead)
  have shorter : (Operand.spanRegular (b :: r)).2.length < (s.rest input).length := by
    rw [Operand.spanRegular, List.dropWhile_cons_of_pos (Operand.isRegular_of_isWordStart word),
      ahead, List.length_cons]
    exact Nat.lt_succ_of_le (dropWhile_length_le Byte.isRegular r)
  exact ahead ▸ ((keyword_follows inside enough).further (ahead ▸ shorter)).called_onward
    .keyword ⟨b, ahead ▸ rfl, word⟩

theorem called_literal_follows {r : Bytes} (ahead : s.rest input = Byte.openParen :: r)
    (enough : (s.rest input).length ≤ clock) :
    Follows input (s.position + 1) (called .literal (literal input clock)) s
      (heldLiteral [] (Operand.readLiteral 0 r)) :=
  (literal_follows ahead enough).called_onward .literal (congrArg List.head? ahead)

theorem called_hex_follows {r : Bytes} (ahead : s.rest input = Byte.less :: r)
    (single : r.head? ≠ some Byte.less) (enough : (s.rest input).length ≤ clock) :
    Follows input (s.position + 1) (called .hex (hex input clock)) s (Operand.readHex none r) :=
  (hex_follows ahead enough).called_onward .hex
    (ahead ▸ ⟨rfl, List.head?_eq_getElem? ▸ single⟩)

theorem called_array_follows (arrays : ReadsArrays input clock) {r : Bytes}
    (ahead : s.rest input = Byte.openBracket :: r) (enough : 2 * (r.length + 1) ≤ clock) :
    Follows input (s.position + 1)
      (called .array do
        advance 1
        arrayRest input clock []) s (Operand.readWithin [.array []] r) := by
  refine Follows.called_onward (.advance_one ahead fun inside rest => ?_) .array
    (congrArg List.head? ahead)
  have on := arrays (s.move 1) [] inside (by rw [rest]; omega)
  rwa [rest] at on

theorem called_dictionary_follows (dictionaries : ReadsDictionaries input clock) {r : Bytes}
    (ahead : s.rest input = Byte.less :: Byte.less :: r) (enough : 2 * (r.length + 1) ≤ clock) :
    Follows input (s.position + 1)
      (called .dictionary do
        advance 2
        dictionaryRest input clock []) s (Operand.readWithin [.dictionary []] r) := by
  refine Follows.called_onward (.advance_two ahead fun inside rest => ?_) .dictionary
    (ahead ▸ ⟨rfl, rfl⟩)
  have on := dictionaries (s.move 2) [] inside (by rw [rest]; omega)
  rwa [rest] at on

theorem entry_follows (values : ReadsValues input clock) {k : String → Operand → Lex β}
    {g : (String × Operand) → Bytes → Except SyntaxFault (β × Bytes)} {r : Bytes}
    (ahead : s.rest input = Byte.slash :: r) (enough : 2 * (s.rest input).length ≤ clock)
    (next : ∀ key value t, t.position ≤ input.length → (t.rest input).length < r.length →
      Follows input t.position (k key value) t (g (key, value) (t.rest input))) :
    Follows input (s.position + 1)
      (do
        let key ← called .name (name input clock)
        skip input clock
        let entry ← called .value (value input clock)
        k key entry) s
      ((Operand.read (skipBlank (Operand.readName r).2)).bind fun value =>
        g ((Operand.readName r).1, value.1) value.2) := by
  rw [ahead, List.length_cons] at enough
  have named : Follows input (s.position + 1) (called .name (name input clock)) s
      (.ok ((Operand.readName r).1, (Operand.readName r).2)) :=
    called_name_follows ahead (by rw [ahead, List.length_cons]; omega)
  refine named.andThen fun t moved rest => ?_
  have shorter := Operand.readName_length_le r
  refine (skip_follows moved.inside (by rw [rest]; omega)).andThen fun u moved' rest' => ?_
  have shorter' := skipBlank_length_le (Operand.readName r).2
  rw [rest] at rest'
  have reads := called_value_follows values moved'.inside (by rw [rest']; omega)
  rw [rest'] at reads
  refine reads.bind fun value v moved'' same => ?_
  have further := Operand.read_length same
  exact next _ value v moved''.inside (by omega)

theorem readsValues_succ (arrays : ReadsArrays input clock)
    (dictionaries : ReadsDictionaries input clock) : ReadsValues input (clock + 1) := by
  intro s b r ahead start enough
  refine .peek ?_
  rw [ahead, List.length_cons] at enough
  have length : (s.rest input).length = r.length + 1 := by rw [ahead, List.length_cons]
  rw [ahead]
  simp only [List.head?_cons]
  by_cases paren : b = Byte.openParen
  · subst paren
    exact Operand.read_literal ▸ (called_literal_follows ahead (by omega)).map
  by_cases less : b = Byte.less
  · subst less
    refine .peekAt 1 ?_
    rw [ahead, List.getElem?_cons_succ, ← List.head?_eq_getElem?]
    cases double : Bytes.after? Byte.less r with
    | some inner =>
      obtain rfl := Bytes.after?_eq_some.1 double
      rw [List.length_cons] at enough
      exact Operand.read_dictionary inner ▸
        called_dictionary_follows dictionaries ahead (by omega)
    | none =>
      have single := Bytes.head?_ne_of_after? double
      rw [if_neg (by simpa using single), Operand.read_hex double]
      exact (called_hex_follows ahead single (by omega)).map
  by_cases bracket : b = Byte.openBracket
  · subst bracket
    exact Operand.read_array r ▸ called_array_follows arrays ahead (by omega)
  by_cases slash : b = Byte.slash
  · subst slash
    exact Operand.read_name ▸ (called_name_follows ahead (by omega)).map
  simp only [beq_iff_eq, if_neg paren, if_neg less, if_neg bracket, if_neg slash]
  by_cases number : Operand.isNumberStart b = true
  · rw [if_pos number, Operand.read_number ⟨paren, less, bracket⟩ slash number]
    exact called_number_follows ahead number (by omega)
  rw [if_neg number]
  by_cases word : Operand.isWordStart b = true
  · rw [if_pos word, Operand.read_word ⟨paren, less, bracket⟩ slash number word]
    exact (called_keyword_follows ahead word (by omega)).map
  · simp [startsOperand, Operand.isStart, paren, less, bracket, slash, number, word] at start

theorem readsArrays_succ (values : ReadsValues input clock) (arrays : ReadsArrays input clock) :
    ReadsArrays input (clock + 1) := by
  intro s items inside enough
  rw [Operand.readWithin_items]
  refine (skip_follows inside (by omega)).andThen fun t moved rest => ?_
  have shorter := skipBlank_length_le (s.rest input)
  rw [← rest] at shorter ⊢
  refine .peek ?_
  cases ahead : t.rest input with
  | nil => exact .fail .unclosedArray moved.inside
  | cons b r =>
    simp only [List.head?_cons]
    by_cases closing : (b == Byte.closeBracket) = true
    · simp only [if_pos closing]
      exact (Follows.advance_one ahead fun inside rest =>
        .pure (Operand.array items.reverse) inside rest).weaken (Nat.le_succ _)
    · simp only [if_neg closing]
      have item := called_value_follows values moved.inside (by omega)
      rw [ahead] at item
      refine item.bind fun value u moved' same => ?_
      have further := Operand.read_length same
      rw [← ahead] at further
      exact arrays u (value :: items) moved'.inside (by omega)

theorem readsDictionaries_succ (values : ReadsValues input clock)
    (dictionaries : ReadsDictionaries input clock) : ReadsDictionaries input (clock + 1) := by
  intro s entries inside enough
  rw [Operand.readWithin_entries]
  refine (skip_follows inside (by omega)).andThen fun t moved rest => ?_
  have shorter := skipBlank_length_le (s.rest input)
  rw [← rest] at shorter ⊢
  refine .peek ?_
  cases ahead : t.rest input with
  | nil => exact .fail .unclosedDictionary moved.inside
  | cons b r =>
    rw [ahead, List.length_cons] at shorter
    simp only [List.head?_cons]
    by_cases slash : (b == Byte.slash) = true
    · simp only [if_pos slash]
      obtain rfl := beq_iff_eq.1 slash
      refine (entry_follows values ahead (by rw [ahead, List.length_cons]; omega)
        (g := fun entry r => Operand.readWithin [.dictionary (entry :: entries)] r)
        fun key value u inside further => ?_).weaken (Nat.le_succ _)
      exact dictionaries u ((key, value) :: entries) inside (by omega)
    simp only [if_neg slash]
    refine .peekAt 1 ?_
    rw [ahead, List.getElem?_cons_succ, ← List.head?_eq_getElem?]
    by_cases greater : (b == Byte.greater) = true
    · cases double : Bytes.after? Byte.greater r with
      | none =>
        have single := Bytes.head?_ne_of_after? double
        rw [if_pos greater, if_neg (by simpa using fun _ => single)]
        exact .fail .keyExpected moved.inside
      | some inner =>
        obtain rfl := Bytes.after?_eq_some.1 double
        obtain rfl := beq_iff_eq.1 greater
        exact (Follows.advance_two ahead fun inside rest =>
          .pure (Operand.dictionary entries.reverse) inside rest).weaken (Nat.le_succ _)
    · rw [if_neg greater, if_neg (by simpa using fun same => absurd (beq_iff_eq.2 same) greater)]
      exact .fail .keyExpected moved.inside

theorem reads (clock : Nat) :
    ReadsValues input clock ∧ ReadsArrays input clock ∧ ReadsDictionaries input clock := by
  induction clock with
  | zero =>
    refine ⟨fun _ _ _ _ _ enough => ?_, fun _ _ _ enough => ?_, fun _ _ _ enough => ?_⟩ <;>
      exact absurd enough (by omega)
  | succ clock ih =>
    obtain ⟨values, arrays, dictionaries⟩ := ih
    exact ⟨readsValues_succ arrays dictionaries, readsArrays_succ values arrays,
      readsDictionaries_succ values dictionaries⟩

theorem readsValues (input : Bytes) (clock : Nat) : ReadsValues input clock :=
  (reads clock).1

end Lexer

end PdfContent
