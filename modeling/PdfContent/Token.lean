import PdfContent.Operand.Reader

/-!
Content streams as tokens. A stream is a run of operands, operators and stray bytes between
blanks. An inline image is read here too, since its data ends by a rule of its own: it becomes the
operators `BI`, `ID` and `EI` with the parameter dictionary and the data as their operands.
-/

namespace PdfContent

inductive Token
  | operand (value : Operand)
  | operator (name : String)
  | stray (text : String)
  deriving Inhabited

namespace Token

def isStrayByte (b : UInt8) : Bool :=
  !Byte.isBlank b && !Byte.isDelimiter b && !Operand.isWordStart b

def isLoneDelimiter (b : UInt8) : Bool :=
  b == Byte.closeBracket || b == Byte.closeBrace || b == Byte.openBrace || b == Byte.closeParen

def ofWord (word : String) : Token :=
  if word == "true" then .operand (.boolean true)
  else if word == "false" then .operand (.boolean false)
  else if word == "null" then .operand .null
  else .operator word

/-- What follows the `ID` that ends the parameters of an inline image: it is a word of its own, and
one blank after it is not data. -/
def afterDataMark? (s : Bytes) : Option Bytes :=
  match Bytes.afterWord? (Bytes.ofLatin "ID") s with
  | some (b :: r) => if Byte.isBlank b then some r else none
  | some [] => some []
  | none => none

def afterEndMark? (s : Bytes) : Option Bytes :=
  match Bytes.afterWord? (Bytes.ofLatin "EI") s with
  | some (b :: r) => if Byte.isBlank b || Byte.isDelimiter b then some (b :: r) else none
  | some [] => some []
  | none => none

/-- The data of an inline image up to its `EI`, which stands at the start of the data or after a
blank; `atMark` says whether it may stand here. -/
def spanData (atMark : Bool) : Bytes → Option (Bytes × Bytes)
  | [] => none
  | b :: s =>
    match if atMark then afterEndMark? (b :: s) else none with
    | some r => some ([], r)
    | none => (spanData (Byte.isBlank b) s).map fun r => (b :: r.1, r.2)

def trimData (data : Bytes) : Bytes :=
  match data.getLast? with
  | some b => if Byte.isBlank b then data.dropLast else data
  | none => data

/-- Parameters and data of an inline image, from the bytes after `BI`. The parameters read so far
are kept newest first. -/
def readImage (entries : List (String × Operand)) (s : Bytes) :
    Except SyntaxFault ((List (String × Operand) × Bytes) × Bytes) :=
  match _ : skipBlank s with
  | [] => .error .imageWithoutData
  | b :: r =>
    match afterDataMark? (b :: r) with
    | some r =>
      match spanData true r with
      | some (data, r) => .ok ((entries.reverse, trimData data), r)
      | none => .error .imageWithoutEnd
    | none =>
      if b == Byte.slash then
        let name := Operand.readName r
        match _ : Operand.read (skipBlank name.2) with
        | .error e => .error e
        | .ok (value, r) => readImage ((name.1, value) :: entries) r
      else .error .imageKeyExpected
termination_by s.length
decreasing_by
  have := skipBlank_length_le s
  have := skipBlank_length_le name.2
  have : name.2.length ≤ _ := Operand.readName_length_le _
  have := Operand.read_length ‹_›
  simp_all only [List.length_cons]
  omega

def readTokens (b : UInt8) (s : Bytes) : Except SyntaxFault (List Token × Bytes) :=
  if isLoneDelimiter b then .ok ([.stray (Bytes.toText [b])], s)
  else if b == Byte.greater then
    match Bytes.after? Byte.greater s with
    | some r => .ok ([.stray ">>"], r)
    | none => .ok ([.stray ">"], s)
  else if Operand.isWordStart b then
    let word := Operand.spanRegular (b :: s)
    if word.1 == Bytes.ofLatin "BI" then
      (readImage [] word.2).map fun r =>
        ([.operator "BI", .operand (.dictionary r.1.1), .operator "ID",
          .operand (.literal r.1.2), .operator "EI"], r.2)
    else .ok ([ofWord word.1.toText], word.2)
  else if Operand.isStart b then
    (Operand.read (b :: s)).map fun r => ([.operand r.1], r.2)
  else
    .ok ([.stray (Bytes.toText (b :: s.takeWhile isStrayByte))], s.dropWhile isStrayByte)

theorem afterDataMark?_length {s r : Bytes} (h : afterDataMark? s = some r) :
    r.length < s.length := by
  unfold afterDataMark? at h
  split at h
  · rename_i b t ht
    split at h
    · simp only [Option.some.injEq] at h
      simp only [Bytes.afterWord?_eq_some.1 ht, ← h, List.length_append, List.length_cons]
      omega
    · simp at h
  · rename_i ht
    simp only [Option.some.injEq] at h
    simp only [Bytes.afterWord?_eq_some.1 ht, ← h]
    decide
  · simp at h

theorem afterEndMark?_length {s r : Bytes} (h : afterEndMark? s = some r) :
    r.length < s.length := by
  have two : (Bytes.ofLatin "EI").length = 2 := by decide
  unfold afterEndMark? at h
  split at h
  · rename_i b t ht
    split at h
    · simp only [Option.some.injEq] at h
      simp only [Bytes.afterWord?_eq_some.1 ht, ← h, List.length_append, List.length_cons, two]
      omega
    · simp at h
  · rename_i ht
    simp only [Option.some.injEq] at h
    simp only [Bytes.afterWord?_eq_some.1 ht, ← h]
    decide
  · simp at h

theorem spanData_length {atMark : Bool} {s data r : Bytes}
    (h : spanData atMark s = some (data, r)) : r.length < s.length := by
  fun_induction spanData atMark s generalizing data r with
  | case1 => simp at h
  | case2 atMark b s t ht =>
    simp only [Option.some.injEq, Prod.mk.injEq] at h
    rw [← h.2]
    split at ht
    · exact afterEndMark?_length ht
    · simp at ht
  | case3 atMark b s _ ih =>
    obtain ⟨⟨d, t⟩, ht, he⟩ := Option.map_eq_some_iff.1 h
    obtain ⟨rfl, rfl⟩ := Prod.mk.inj he
    have := ih ht
    simp only [List.length_cons]
    omega

theorem readImage_length {entries : List (String × Operand)} {s r : Bytes}
    {image : List (String × Operand) × Bytes} (h : readImage entries s = .ok (image, r)) :
    r.length < s.length := by
  fun_induction readImage entries s with
  | case1 => simp at h
  | case2 entries s b t ht u hu data v hv =>
    have := skipBlank_length_le s
    have := afterDataMark?_length hu
    have := spanData_length hv
    simp only [Except.ok.injEq, Prod.mk.injEq] at h
    rw [← h.2]
    rw [← ht] at *
    omega
  | case3 => simp at h
  | case4 => simp at h
  | case5 entries s b t ht _ _ name value u hu ih =>
    have := skipBlank_length_le s
    have := skipBlank_length_le name.2
    have : name.2.length ≤ t.length := Operand.readName_length_le t
    have := Operand.read_length hu
    have := ih h
    rw [ht, List.length_cons] at *
    omega
  | case6 => simp at h

theorem readTokens_length {b : UInt8} {s r : Bytes} {ts : List Token}
    (h : readTokens b s = .ok (ts, r)) : r.length < (b :: s).length := by
  have hw := dropWhile_length_le Byte.isRegular s
  simp only [readTokens] at h
  split at h
  · simp only [Except.ok.injEq, Prod.mk.injEq] at h
    simp [← h.2]
  · split at h
    · split at h
      · rename_i t ht
        simp only [Except.ok.injEq, Prod.mk.injEq] at h
        simp only [Bytes.after?_eq_some.1 ht, ← h.2, List.length_cons]
        omega
      · simp only [Except.ok.injEq, Prod.mk.injEq] at h
        simp [← h.2]
    · split at h
      · rename_i hb
        rw [Operand.spanRegular,
          List.dropWhile_cons_of_pos (Operand.isRegular_of_isWordStart hb)] at h
        split at h
        · obtain ⟨⟨v, t⟩, ht, he⟩ := map_eq_ok h
          obtain ⟨rfl, rfl⟩ := Prod.mk.inj he
          have := readImage_length ht
          simp only [List.length_cons] at this ⊢
          omega
        · simp only [Except.ok.injEq, Prod.mk.injEq] at h
          simp only [← h.2, List.length_cons]
          omega
      · split at h
        · obtain ⟨⟨v, t⟩, ht, he⟩ := map_eq_ok h
          obtain ⟨rfl, rfl⟩ := Prod.mk.inj he
          exact Operand.read_length ht
        · have := dropWhile_length_le isStrayByte s
          simp only [Except.ok.injEq, Prod.mk.injEq] at h
          simp only [← h.2, List.length_cons]
          omega

def ofBytes (s : Bytes) : Except SyntaxFault (List Token) :=
  match _ : skipBlank s with
  | [] => .ok []
  | b :: r =>
    match _ : readTokens b r with
    | .error e => .error e
    | .ok (tokens, r) => (ofBytes r).map (tokens ++ ·)
termination_by s.length
decreasing_by
  have := skipBlank_length_le s
  have := readTokens_length ‹_›
  simp_all only [List.length_cons]
  omega

end Token

end PdfContent
