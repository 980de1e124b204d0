import PdfContent.Proofs.Lookahead

/-!
Operands inside operands. What is open around an operand does not matter to how it is read: reading
on with containers open gives what reading the operand alone gives, put into the innermost of them.
So an array is read item by item and a dictionary entry by entry, each item as an operand of its
own.
-/

namespace PdfContent.Operand

def Progress.around (opened : List Opened) : Progress → Progress
  | .complete value => place value opened
  | .within inner => .within (inner ++ opened)

theorem place_append (value : Operand) (inner opened : List Opened) :
    place value (inner ++ opened) = (place value inner).around opened := by
  rcases inner with _ | ⟨⟨items⟩ | ⟨entries⟩ | ⟨entries, key⟩, rest⟩ <;> rfl

theorem readStart_append (inner opened : List Opened) (s : Bytes) :
    readStart (inner ++ opened) s =
      (readStart inner s).map fun step => (step.1.around opened, step.2) := by
  cases s with
  | nil => rfl
  | cons b s =>
    simp only [readStart, place_append]
    split_ifs
    · cases readLiteral 0 s <;> rfl
    · cases Bytes.after? Byte.less s with
      | some r => rfl
      | none => cases readHex none s <;> rfl
    all_goals rfl

theorem readStep_append {inner : List Opened} (within : inner ≠ []) (opened : List Opened)
    (s : Bytes) :
    readStep (inner ++ opened) s =
      (readStep inner s).map fun step => (step.1.around opened, step.2) := by
  rcases inner with _ | ⟨⟨items⟩ | ⟨entries⟩ | ⟨entries, key⟩, rest⟩
  · exact absurd rfl within
  · simp only [readStep, List.cons_append]
    cases skipBlank s with
    | nil => rfl
    | cons b r =>
      dsimp only
      split_ifs
      · exact congrArg Except.ok (Prod.ext (place_append ..) rfl)
      · exact readStart_append (.array items :: rest) opened (b :: r)
  · simp only [readStep, List.cons_append]
    cases skipBlank s with
    | nil => rfl
    | cons b r =>
      dsimp only
      split_ifs
      · rfl
      · cases Bytes.after? Byte.greater r with
        | none => rfl
        | some r => exact congrArg Except.ok (Prod.ext (place_append ..) rfl)
      · rfl
  · exact readStart_append (.entry entries key :: rest) opened (skipBlank s)

def resumeAround (opened : List Opened) (read : Operand × Bytes) :
    Except SyntaxFault (Operand × Bytes) :=
  resume (place read.1 opened, read.2)

theorem within_ne_nil_of_place {value : Operand} {opened inner : List Opened}
    (h : place value opened = .within inner) : inner ≠ [] := by
  rcases opened with _ | ⟨⟨items⟩ | ⟨entries⟩ | ⟨entries, key⟩, rest⟩ <;> cases h <;> simp

theorem within_ne_nil_of_start {opened inner : List Opened} {s r : Bytes}
    (h : readStart opened s = .ok (.within inner, r)) : inner ≠ [] := by
  cases s with
  | nil => cases h
  | cons b s =>
    simp only [readStart] at h
    split_ifs at h
    · split at h
      · exact within_ne_nil_of_place (congrArg Prod.fst (Except.ok.inj h))
      · cases h
    · split at h
      · cases h
        simp
      · obtain ⟨value, -, h⟩ := map_eq_ok h
        exact within_ne_nil_of_place (congrArg Prod.fst h)
    · cases h
      simp
    all_goals exact within_ne_nil_of_place (congrArg Prod.fst (Except.ok.inj h))

theorem within_ne_nil_of_step {opened inner : List Opened} {s r : Bytes}
    (h : readStep opened s = .ok (.within inner, r)) : inner ≠ [] := by
  rcases opened with _ | ⟨⟨items⟩ | ⟨entries⟩ | ⟨entries, key⟩, rest⟩
  · exact within_ne_nil_of_start h
  · simp only [readStep] at h
    split at h
    · cases h
    · split_ifs at h
      · exact within_ne_nil_of_place (congrArg Prod.fst (Except.ok.inj h))
      · exact within_ne_nil_of_start h
  · simp only [readStep] at h
    split at h
    · cases h
    · split_ifs at h
      · cases h
        simp
      · split at h
        · exact within_ne_nil_of_place (congrArg Prod.fst (Except.ok.inj h))
        · cases h
  · exact within_ne_nil_of_start h

/-- Containers that stay open around do not change what is read inside. -/
theorem readWithin_append {inner : List Opened} (within : inner ≠ []) (opened : List Opened)
    (s : Bytes) :
    readWithin (inner ++ opened) s = (readWithin inner s).bind (resumeAround opened) := by
  fun_induction readWithin inner s with
  | case1 inner s fault h =>
    rw [readWithin_eq, readStep_append within, h]
    rfl
  | case2 inner s value r h =>
    rw [readWithin_eq, readStep_append within, h]
    rfl
  | case3 inner s deeper r h ih =>
    rw [readWithin_eq, readStep_append within, h]
    exact ih (within_ne_nil_of_step h)

theorem readStart_resume (opened : List Opened) (s : Bytes) :
    (readStart opened s).bind resume = (read s).bind (resumeAround opened) := by
  have alone : read s = (readStart [] s).bind resume := readWithin_eq [] s
  have around := readStart_append [] opened s
  rw [List.nil_append] at around
  rw [alone, around]
  cases h : readStart [] s with
  | error fault => rfl
  | ok step =>
    obtain ⟨progress, r⟩ := step
    cases progress with
    | complete value => rfl
    | within inner => exact readWithin_append (within_ne_nil_of_start h) opened r

theorem read_array (s : Bytes) : read (Byte.openBracket :: s) = readWithin [.array []] s := by
  have step : readStep [] (Byte.openBracket :: s) = .ok (.within [.array []], s) := rfl
  exact readWithin_of_step step

theorem read_dictionary (s : Bytes) :
    read (Byte.less :: Byte.less :: s) = readWithin [.dictionary []] s := by
  have step : readStep [] (Byte.less :: Byte.less :: s) = .ok (.within [.dictionary []], s) := rfl
  exact readWithin_of_step step

theorem readWithin_items (items : List Operand) (s : Bytes) :
    readWithin [.array items] s =
      match skipBlank s with
      | [] => .error .unclosedArray
      | b :: r =>
        if b == Byte.closeBracket then .ok (.array items.reverse, r)
        else (read (b :: r)).bind fun item => readWithin [.array (item.1 :: items)] item.2 := by
  rw [readWithin_eq]
  simp only [readStep]
  cases skipBlank s with
  | nil => rfl
  | cons b r =>
    dsimp only
    split_ifs
    · rfl
    · exact readStart_resume [.array items] (b :: r)

theorem readWithin_entry (entries : List (String × Operand)) (key : String) (s : Bytes) :
    readWithin [.entry entries key] s =
      (read (skipBlank s)).bind fun value =>
        readWithin [.dictionary ((key, value.1) :: entries)] value.2 := by
  rw [readWithin_eq]
  exact readStart_resume [.entry entries key] (skipBlank s)

theorem readWithin_entries (entries : List (String × Operand)) (s : Bytes) :
    readWithin [.dictionary entries] s =
      match skipBlank s with
      | [] => .error .unclosedDictionary
      | b :: r =>
        if b == Byte.slash then
          (read (skipBlank (readName r).2)).bind fun value =>
            readWithin [.dictionary (((readName r).1, value.1) :: entries)] value.2
        else if b == Byte.greater then
          match Bytes.after? Byte.greater r with
          | some r => .ok (.dictionary entries.reverse, r)
          | none => .error .keyExpected
        else .error .keyExpected := by
  rw [readWithin_eq]
  simp only [readStep]
  cases skipBlank s with
  | nil => rfl
  | cons b r =>
    dsimp only
    split_ifs
    · exact readWithin_entry entries (readName r).1 (readName r).2
    · cases Bytes.after? Byte.greater r <;> rfl
    · rfl

end PdfContent.Operand
