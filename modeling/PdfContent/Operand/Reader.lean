import PdfContent.Operand.Leaf

/-!
Reading a whole operand. Arrays and dictionaries nest to any depth: the containers still open are
kept in a list, innermost first, and every step closes one, opens one or reads a leaf. Each step
consumes at least one byte, so reading ends.
-/

namespace PdfContent.Operand

/-- A container that is still open. What it holds so far is kept newest first. -/
inductive Opened
  | array (items : List Operand)
  | dictionary (entries : List (String × Operand))
  | entry (entries : List (String × Operand)) (key : String)

inductive Progress
  | complete (value : Operand)
  | within (opened : List Opened)

def place (value : Operand) : List Opened → Progress
  | [] => .complete value
  | .array items :: rest => .within (.array (value :: items) :: rest)
  | .entry entries key :: rest => .within (.dictionary ((key, value) :: entries) :: rest)
  | .dictionary entries :: rest => .within (.dictionary entries :: rest)

def readStart (opened : List Opened) : Bytes → Except SyntaxFault (Progress × Bytes)
  | [] => .error .unexpectedEnd
  | b :: s =>
    if b == Byte.openParen then
      match readLiteral 0 s with
      | some (v, r) => .ok (place (.literal v) opened, r)
      | none => .error .unclosedString
    else if b == Byte.less then
      match Bytes.after? Byte.less s with
      | some r => .ok (.within (.dictionary [] :: opened), r)
      | none => (readHex none s).map fun r => (place (.hex r.1) opened, r.2)
    else if b == Byte.openBracket then .ok (.within (.array [] :: opened), s)
    else if b == Byte.slash then
      let name := readName s
      .ok (place (.name name.1) opened, name.2)
    else if isNumberStart b then
      let number := readNumber (b :: s)
      .ok (place number.1 opened, number.2)
    else if isWordStart b then
      let word := spanRegular (b :: s)
      .ok (place (ofWord word.1.toText) opened, word.2)
    else .error (.unexpectedByte b)

def readStep (opened : List Opened) (s : Bytes) : Except SyntaxFault (Progress × Bytes) :=
  match opened with
  | .array items :: rest =>
    match skipBlank s with
    | [] => .error .unclosedArray
    | b :: r =>
      if b == Byte.closeBracket then .ok (place (.array items.reverse) rest, r)
      else readStart opened (b :: r)
  | .dictionary entries :: rest =>
    match skipBlank s with
    | [] => .error .unclosedDictionary
    | b :: r =>
      if b == Byte.slash then
        let name := readName r
        .ok (.within (.entry entries name.1 :: rest), name.2)
      else if b == Byte.greater then
        match Bytes.after? Byte.greater r with
        | some r => .ok (place (.dictionary entries.reverse) rest, r)
        | none => .error .keyExpected
      else .error .keyExpected
  | .entry _ _ :: _ => readStart opened (skipBlank s)
  | [] => readStart opened s

theorem spanRegular_length_le (s : Bytes) : (spanRegular s).2.length ≤ s.length :=
  dropWhile_length_le _ s

theorem readName_length_le (s : Bytes) : (readName s).2.length ≤ s.length :=
  spanRegular_length_le s

theorem isRegular_of_isWordStart {b : UInt8} (h : isWordStart b) : Byte.isRegular b := by
  have all : ∀ n : Fin 256, isWordStart (UInt8.ofFin n) → Byte.isRegular (UInt8.ofFin n) := by
    decide +kernel
  exact all b.toFin h

theorem readStart_length {opened : List Opened} {s r : Bytes} {p : Progress}
    (h : readStart opened s = .ok (p, r)) : r.length < s.length := by
  cases s with
  | nil => simp [readStart] at h
  | cons b s =>
    simp only [readStart] at h
    split at h
    · split at h
      · rename_i v r' hr
        simp only [Except.ok.injEq, Prod.mk.injEq] at h
        have := readLiteral_length hr
        simp only [List.length_cons, ← h.2]
        omega
      · simp at h
    · split at h
      · split at h
        · rename_i t ht
          simp only [Except.ok.injEq, Prod.mk.injEq] at h
          simp only [Bytes.after?_eq_some.1 ht, List.length_cons, ← h.2]
          omega
        · obtain ⟨⟨v, r'⟩, hr, he⟩ := map_eq_ok h
          obtain ⟨rfl, rfl⟩ := Prod.mk.inj he
          have := readHex_length hr
          simp only [List.length_cons]
          omega
      · split at h
        · simp only [Except.ok.injEq, Prod.mk.injEq] at h
          simp [← h.2]
        · split at h
          · simp only [Except.ok.injEq, Prod.mk.injEq] at h
            have := readName_length_le s
            simp only [List.length_cons, ← h.2]
            omega
          · split at h
            · rename_i hn
              simp only [Except.ok.injEq, Prod.mk.injEq] at h
              rw [← h.2]
              exact readNumber_length hn
            · split at h
              · rename_i hw
                simp only [Except.ok.injEq, Prod.mk.injEq] at h
                have := dropWhile_length_le Byte.isRegular s
                simp only [← h.2, spanRegular,
                  List.dropWhile_cons_of_pos (isRegular_of_isWordStart hw), List.length_cons]
                omega
              · simp at h

theorem readStep_length {opened : List Opened} {s r : Bytes} {p : Progress}
    (h : readStep opened s = .ok (p, r)) : r.length < s.length := by
  have hs := skipBlank_length_le s
  unfold readStep at h
  split at h
  · split at h
    · simp at h
    · rename_i b t ht
      rw [ht, List.length_cons] at hs
      split at h
      · simp only [Except.ok.injEq, Prod.mk.injEq] at h
        rw [← h.2]
        omega
      · have := readStart_length h
        rw [List.length_cons] at this
        omega
  · split at h
    · simp at h
    · rename_i b t ht
      rw [ht, List.length_cons] at hs
      split at h
      · simp only [Except.ok.injEq, Prod.mk.injEq] at h
        have := readName_length_le t
        rw [← h.2]
        omega
      · split at h
        · split at h
          · rename_i u hu
            rw [Bytes.after?_eq_some.1 hu, List.length_cons] at hs
            simp only [Except.ok.injEq, Prod.mk.injEq] at h
            rw [← h.2]
            omega
          · simp at h
        · simp at h
  · exact Nat.lt_of_lt_of_le (readStart_length h) hs
  · exact readStart_length h

/-- Reads on until the outermost operand is complete. -/
def readWithin (opened : List Opened) (s : Bytes) : Except SyntaxFault (Operand × Bytes) :=
  match _ : readStep opened s with
  | .error e => .error e
  | .ok (.complete value, r) => .ok (value, r)
  | .ok (.within inner, r) => readWithin inner r
termination_by s.length
decreasing_by exact readStep_length ‹_›

theorem readWithin_length {opened : List Opened} {s r : Bytes} {v : Operand}
    (h : readWithin opened s = .ok (v, r)) : r.length < s.length := by
  fun_induction readWithin opened s with
  | case1 => simp at h
  | case2 opened s value r' hr =>
    simp only [Except.ok.injEq, Prod.mk.injEq] at h
    rw [← h.2]
    exact readStep_length hr
  | case3 opened s inner r' hr ih =>
    exact Nat.lt_trans (ih h) (readStep_length hr)

def read (s : Bytes) : Except SyntaxFault (Operand × Bytes) := readWithin [] s

theorem read_length {s r : Bytes} {v : Operand} (h : read s = .ok (v, r)) :
    r.length < s.length :=
  readWithin_length h

end PdfContent.Operand
