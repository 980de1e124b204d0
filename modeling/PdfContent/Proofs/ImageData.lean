import PdfContent.Proofs.RoundTrip
import PdfContent.Proofs.SpelledNames

/-!
Inline images read back. Their data is raw, so it ends at the first `EI` that stands at the start or
behind a blank and is followed by no regular byte. Whatever bytes are written between `ID` and an
`EI` come back as they were when no other such mark stands in front of that one: the blank that sets
the data apart at either side is not part of it, and further blanks are.
-/

namespace PdfContent

namespace Token

open PlainOperand (writeEntries toEntries)

/-- An `EI` at position `p` that may end the data `s`; `atMark` says whether one may stand at the
very start. -/
structure EndMark (atMark : Bool) (s : Bytes) (p : Nat) : Prop where
  letters : Bytes.ofLatin "EI" <+: s.drop p
  free : (if p = 0 then atMark else s[p - 1]?.any Byte.isBlank) = true
  ends : ∀ b ∈ s[p + 2]?, endsMark b = true

namespace EndMark

variable {atMark : Bool} {b : UInt8} {s r : Bytes} {p : Nat}

theorem iff_and : EndMark atMark s p ↔ Bytes.ofLatin "EI" <+: s.drop p ∧
    (if p = 0 then atMark else s[p - 1]?.any Byte.isBlank) = true ∧
      s[p + 2]?.all endsMark = true := by
  rw [Option.all_eq_true]
  constructor
  · intro h
    exact ⟨h.letters, h.free, h.ends⟩
  · rintro ⟨letters, free, ends⟩
    exact ⟨letters, free, ends⟩

instance : Decidable (EndMark atMark s p) := decidable_of_iff' _ iff_and

theorem succ_iff : EndMark atMark (b :: s) (p + 1) ↔ EndMark (Byte.isBlank b) s p := by
  have free : (b :: s)[p]?.any Byte.isBlank =
      if p = 0 then Byte.isBlank b else s[p - 1]?.any Byte.isBlank := by
    cases p <;> rfl
  rw [iff_and, iff_and, if_neg (Nat.succ_ne_zero p), Nat.add_sub_cancel, free]
  rfl

theorem of_afterEndMark? (h : (if atMark then afterEndMark? s else none) = some r) :
    EndMark atMark s 0 := by
  cases atMark with
  | false => cases h
  | true =>
    obtain ⟨rfl, ends⟩ := afterEndMark?_split h
    refine ⟨⟨r, rfl⟩, rfl, fun b hb => ends b ?_⟩
    rwa [List.head?_eq_getElem?]

end EndMark

theorem spanData_of_first {atMark : Bool} {data r : Bytes}
    (last : EndMark atMark (data ++ 0x45 :: 0x49 :: r) data.length)
    (first : ∀ p < data.length, ¬ EndMark atMark (data ++ 0x45 :: 0x49 :: r) p) :
    spanData atMark (data ++ 0x45 :: 0x49 :: r) = some (data, r) := by
  induction data generalizing atMark with
  | nil =>
    have hmark : atMark = true := last.free
    have ends : ∀ b ∈ r.head?, endsMark b = true := by
      intro b hb
      rw [List.head?_eq_getElem?] at hb
      exact last.ends b hb
    rw [hmark]
    exact spanData_end (afterEndMark?_word ends)
  | cons b data ih =>
    have none : (if atMark then afterEndMark? (b :: (data ++ 0x45 :: 0x49 :: r)) else none) =
        none := by
      refine Option.eq_none_iff_forall_ne_some.2 fun r' h => ?_
      exact first 0 (by simp) (EndMark.of_afterEndMark? h)
    have rest := ih (EndMark.succ_iff.1 last) fun p hp mark =>
      first (p + 1) (by simpa using hp) (EndMark.succ_iff.2 mark)
    rw [List.cons_append, spanData_cons none, rest]
    rfl

theorem trimData_concat {b : UInt8} (h : Byte.isBlank b = true) (data : Bytes) :
    trimData (data ++ [b]) = data := by
  simp [trimData, h]

theorem spanData_spaced {d r : Bytes} (ends : ∀ b ∈ r.head?, endsMark b = true)
    (first : ∀ p ≤ d.length, ¬ EndMark true (d ++ Bytes.ofLatin " EI" ++ r) p) :
    spanData true (d ++ Bytes.ofLatin " EI" ++ r) = some (d ++ [Byte.space], r) := by
  have hassoc : d ++ Bytes.ofLatin " EI" ++ r = (d ++ [Byte.space]) ++ 0x45 :: 0x49 :: r := by
    simp [Bytes.ofLatin]
  rw [hassoc] at first ⊢
  refine spanData_of_first ⟨?_, ?_, ?_⟩ fun p hp => first p ?_
  · rw [List.drop_left]
    exact ⟨r, rfl⟩
  · simp [Byte.isBlank]
  · intro b hb
    refine ends b ?_
    rw [List.getElem?_append_right (by omega)] at hb
    simpa [List.head?_eq_getElem?] using hb
  · rw [List.length_append, List.length_singleton] at hp
    omega

end Token

namespace PlainOperand

open Operand

theorem write_first (spaced : Bool) (x : PlainOperand) :
    ∃ b s, x.write spaced = b :: s ∧ isFirst b = true := by
  cases x with
  | null => exact ⟨_, _, rfl, by decide⟩
  | boolean value => cases value <;> exact ⟨_, _, rfl, by decide⟩
  | integer i =>
    obtain ⟨b, s, hs, hb⟩ := writeInteger_first i.toInt
    exact ⟨b, s, hs, by simp [isFirst, isStart, hb]⟩
  | name text => exact ⟨_, _, rfl, by decide⟩
  | literal bytes => exact ⟨_, _, rfl, by decide⟩
  | hex bytes => exact ⟨_, _, rfl, by decide⟩
  | array items => exact ⟨_, _, rfl, by decide⟩
  | dictionary entries => exact ⟨_, _, rfl, by decide⟩

section

variable {spaced : Bool} {lead t : Bytes}

theorem read_behind_gap (h : Gap lead) (ends : Bytes.EndsRun t) (x : PlainOperand) :
    read (skipBlank (lead ++ (x.write spaced ++ t))) = .ok (x.toOperand, t) := by
  have hread := read_write spaced ends x
  obtain ⟨b, s, hs, hb⟩ := write_first spaced x
  rw [hs, List.cons_append] at hread ⊢
  rw [h, skipBlank_of_not_isGap (isFirst_spec b hb).1, hread]

theorem readImage_writeEntries (h : Gap lead) (ends : Bytes.EndsRun t)
    (held : List (String × Operand)) (entries : List (String × PlainOperand)) :
    Token.readImage held (writeEntries spaced lead entries ++ t) =
      Token.readImage ((toEntries entries).reverse ++ held) t := by
  induction entries generalizing lead held with
  | nil => rfl
  | cons entry entries ih =>
    obtain ⟨key, x⟩ := entry
    have hassoc : writeEntries spaced lead ((key, x) :: entries) ++ t =
        lead ++ (writeName key ++ ([Byte.space] ++
          (x.write spaced ++ (writeEntries spaced [Byte.space] entries ++ t)))) := by
      simp [writeEntries]
    have hrest : Bytes.EndsRun (writeEntries spaced [Byte.space] entries ++ t) :=
      endsRun_writeEntries entries ends
    have hvalue : read (skipBlank (Byte.space ::
        (x.write spaced ++ (writeEntries spaced [Byte.space] entries ++ t)))) =
          .ok (x.toOperand, writeEntries spaced [Byte.space] entries ++ t) :=
      read_behind_gap gap_space hrest x
    have hkey := Token.readImage_spelledKey (escapeName_spells (Bytes.ofUtf8 key))
      (endsRun_space (x.write spaced ++ (writeEntries spaced [Byte.space] entries ++ t))) held
    rw [hvalue] at hkey
    have hentry : Token.readImage held (writeName key ++ ([Byte.space] ++
        (x.write spaced ++ (writeEntries spaced [Byte.space] entries ++ t)))) =
          Token.readImage ((key, x.toOperand) :: held)
            (writeEntries spaced [Byte.space] entries ++ t) := hkey
    rw [hassoc, Token.readImage_congr (h _), hentry, ih gap_space]
    simp [toEntries]

end

end PlainOperand

namespace Token

open PlainOperand (writeEntries toEntries)

theorem readTokens_image {s r : Bytes} {entries : List (String × Operand)} {data : Bytes}
    (h : readImage [] (Byte.space :: s) = .ok ((entries, data), r)) :
    readTokens 0x42 (0x49 :: Byte.space :: s) =
      .ok ([.operator "BI", .operand (.dictionary entries), .operator "ID",
        .operand (.literal data), .operator "EI"], r) := by
  have hspan : Operand.spanRegular (0x42 :: 0x49 :: Byte.space :: s) =
      (Bytes.ofLatin "BI", Byte.space :: s) := by
    rw [Operand.spanRegular_cons (by decide), Operand.spanRegular_cons (by decide)]
    rfl
  have hlone : isLoneDelimiter 0x42 = false := by decide
  have hgreater : ((0x42 : UInt8) == Byte.greater) = false := by decide
  have hword : Operand.isWordStart 0x42 = true := by decide
  simp only [readTokens, hlone, hgreater, hword, hspan, BEq.rfl, if_true, h]
  rfl

theorem readImage_written (spaced : Bool) (entries : List (String × PlainOperand)) {d r : Bytes}
    (ends : ∀ b ∈ r.head?, endsMark b = true)
    (first : ∀ p ≤ d.length, ¬ EndMark true (d ++ Bytes.ofLatin " EI" ++ r) p) :
    readImage [] (Byte.space :: (writeEntries spaced [] entries ++
      Byte.space :: 0x49 :: 0x44 :: Byte.space :: (d ++ Bytes.ofLatin " EI" ++ r))) =
        .ok ((toEntries entries, d), r) := by
  have hspace : Byte.isBlank Byte.space = true := by decide
  have hmark : ∀ s, skipBlank (Byte.space :: 0x49 :: s) = 0x49 :: s := by
    intro s
    rw [skipBlank_of_isBlank hspace, skipBlank_of_not_isGap (by decide)]
  have hdata := spanData_spaced ends first
  rw [readImage_congr (skipBlank_of_isBlank hspace _),
    PlainOperand.readImage_writeEntries Gap.nil (PlainOperand.endsRun_space _),
    readImage_data (hmark _) (afterDataMark?_blank hspace _) hdata, trimData_concat hspace,
    List.append_nil, List.reverse_reverse]

/-- An image that was written with any parameters and any data reads back as both, with the tokens
of what stands behind it, when no end mark stands in front of the one that was written. -/
theorem ofBytes_writtenImage (spaced : Bool) (entries : List (String × PlainOperand)) (d r : Bytes)
    (ends : ∀ b ∈ r.head?, Byte.isBlank b = true ∨ Byte.isDelimiter b = true)
    (first : ∀ p ≤ d.length, ¬ EndMark true (d ++ Bytes.ofLatin " EI" ++ r) p) :
    ofBytes (Bytes.ofLatin "BI " ++ writeEntries spaced [] entries ++ Bytes.ofLatin " ID " ++ d ++
        Bytes.ofLatin " EI" ++ r) =
      (ofBytes r).map ([.operator "BI", .operand (.dictionary (toEntries entries)), .operator "ID",
        .operand (.literal d), .operator "EI"] ++ ·) := by
  have hassoc : Bytes.ofLatin "BI " ++ writeEntries spaced [] entries ++ Bytes.ofLatin " ID " ++
      d ++ Bytes.ofLatin " EI" ++ r =
        0x42 :: 0x49 :: Byte.space :: (writeEntries spaced [] entries ++
          Byte.space :: 0x49 :: 0x44 :: Byte.space :: (d ++ Bytes.ofLatin " EI" ++ r)) := by
    simp [Bytes.ofLatin]
  have marks : ∀ b ∈ r.head?, endsMark b = true := by
    intro b hb
    rw [endsMark, Bool.or_eq_true]
    exact ends b hb
  have hskip : ∀ s, skipBlank (0x42 :: s) = 0x42 :: s :=
    skipBlank_of_not_isGap (by decide)
  rw [hassoc,
    ofBytes_cons (hskip _) (readTokens_image (readImage_written spaced entries marks first))]

def nearMarks : Bytes := Bytes.ofLatin " EIx aEI\n"

theorem ofBytes_writtenImage_nearMarks :
    (∀ b ∈ (Bytes.ofLatin "]Q").head?, Byte.isBlank b = true ∨ Byte.isDelimiter b = true) ∧
      (∀ p ≤ nearMarks.length, ¬ EndMark true (nearMarks ++ Bytes.ofLatin " EI" ++
        Bytes.ofLatin "]Q") p) ∧
      ofBytes (Bytes.ofLatin "BI /W 2 /CS /G ID  EIx aEI\n EI]Q") =
        (ofBytes (Bytes.ofLatin "]Q")).map ([.operator "BI",
          .operand (.dictionary [("W", .integer 2), ("CS", .name "G")]), .operator "ID",
          .operand (.literal nearMarks), .operator "EI"] ++ ·) := by
  have ends : ∀ b ∈ (Bytes.ofLatin "]Q").head?,
      Byte.isBlank b = true ∨ Byte.isDelimiter b = true := by
    decide +kernel
  have first : ∀ p ≤ nearMarks.length, ¬ EndMark true (nearMarks ++ Bytes.ofLatin " EI" ++
      Bytes.ofLatin "]Q") p := by
    decide +kernel
  have read := ofBytes_writtenImage true [("W", .integer 2), ("CS", .name "G")] nearMarks
    (Bytes.ofLatin "]Q") ends first
  have written : Bytes.ofLatin "BI /W 2 /CS /G ID  EIx aEI\n EI]Q" = Bytes.ofLatin "BI " ++
      writeEntries true [] [("W", .integer 2), ("CS", .name "G")] ++ Bytes.ofLatin " ID " ++
        nearMarks ++ Bytes.ofLatin " EI" ++ Bytes.ofLatin "]Q" := by
    decide +kernel
  rw [← written] at read
  exact ⟨ends, first, read⟩

end Token

end PdfContent
