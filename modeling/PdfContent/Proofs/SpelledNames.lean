import PdfContent.Proofs.NameSpelling
import PdfContent.Proofs.TokenLookahead

/-!
Names wherever they may stand. A name is read in the same way between the tokens of a stream, inside
an array or a dictionary, as the key of an entry and among the parameters of an inline image: every
spelling of its UTF-8 bytes gives the text, and what is left over is what ended the name. A number
sign in front of the end is no escape, since a byte that ends a name is no hexadecimal digit.
-/

namespace PdfContent

namespace Operand

/-- What is read behind a slash is a name that was spelled there, up to what ended it. -/
theorem readName_eq_iff {s t : Bytes} {name : String} :
    readName s = (name, t) ↔ ∃ written bytes, s = written ++ t ∧ Spells written bytes ∧
      Bytes.EndsRun t ∧ bytes.toText = name := by
  constructor
  · intro h
    obtain ⟨written, r, rfl, regular, ends⟩ := Bytes.span_split Byte.isRegular s
    have spelled := spells_unescapeName written regular
    rw [readName_of_spells spelled ends] at h
    obtain ⟨rfl, rfl⟩ := Prod.mk.inj h
    exact ⟨written, _, rfl, spelled, ends, rfl⟩
  · rintro ⟨written, bytes, rfl, spelled, ends, rfl⟩
    exact readName_of_spells spelled ends

end Operand

namespace Token

open Operand

theorem readTokens_name {written bytes t : Bytes} (spelled : Spells written bytes)
    (ends : Bytes.EndsRun t) :
    readTokens Byte.slash (written ++ t) = .ok ([.operand (.name bytes.toText)], t) := by
  have step : readStep [] (Byte.slash :: (written ++ t)) =
      .ok (.complete (.name bytes.toText), t) := readStart_name spelled ends []
  rw [readTokens_start (by decide), Operand.read, readWithin_of_step step]
  rfl

section

variable {written t : Bytes} {name : String}

theorem readImage_spelledKey (h : Spells written (Bytes.ofUtf8 name)) (ends : Bytes.EndsRun t)
    (entries : List (String × Operand)) :
    readImage entries (Byte.slash :: (written ++ t)) =
      (Operand.read (skipBlank t)).bind fun value =>
        readImage ((name, value.1) :: entries) value.2 := by
  have apart : skipBlank (Byte.slash :: (written ++ t)) = Byte.slash :: (written ++ t) :=
    skipBlank_of_not_isGap (by decide) _
  rw [readImage_eq, apart]
  simp only [afterDataMark?_slash, BEq.rfl, if_true, readName_spelled h ends]

/-- Every spelling of a name that a blank, a delimiter or the end follows gives the name, in all
the places where names are read, and nothing behind the name is consumed. -/
theorem ofBytes_spelledName (h : Spells written (Bytes.ofUtf8 name)) (ends : Bytes.EndsRun t) :
    ofBytes (Byte.slash :: (written ++ t)) =
        (ofBytes t).map ([.operand (.name name)] ++ ·) ∧
      readTokens Byte.slash (written ++ t) = .ok ([.operand (.name name)], t) ∧
      readName (written ++ t) = (name, t) ∧
      (∀ opened, readStart opened (Byte.slash :: (written ++ t)) =
        .ok (place (.name name) opened, t)) ∧
      (∀ entries opened, readStep (.dictionary entries :: opened) (Byte.slash :: (written ++ t)) =
        .ok (.within (.entry entries name :: opened), t)) ∧
      ∀ entries, readImage entries (Byte.slash :: (written ++ t)) =
        (Operand.read (skipBlank t)).bind fun value =>
          readImage ((name, value.1) :: entries) value.2 := by
  have token := readTokens_name h ends
  rw [Bytes.toText_ofUtf8] at token
  refine ⟨?_, token, readName_spelled h ends, readStart_spelledName h ends,
    readStep_spelledKey h ends, readImage_spelledKey h ends⟩
  exact ofBytes_cons (skipBlank_of_not_isGap (by decide) _) token

theorem ofBytes_spelledName_signs :
    let written := (0xC3 : UInt8) :: Bytes.ofLatin "#a9#2341#20#28#4g#4#"
    Spells written (Bytes.ofUtf8 "é#41 (#4g#4#") ∧
      ofBytes (Byte.slash :: (written ++ [Byte.lineFeed])) =
        .ok [.operand (.name "é#41 (#4g#4#")] := by
  intro written
  have spelled : Spells written (Bytes.ofUtf8 "é#41 (#4g#4#") :=
    spells_iff.2 ⟨by decide +kernel, by decide +kernel⟩
  have ends : Bytes.EndsRun [Byte.lineFeed] := Bytes.endsRun_cons (by decide) []
  have behind : ofBytes [Byte.lineFeed] = .ok [] :=
    ofBytes_nil ((skipBlank_of_isBlank (by decide) []).trans skipBlank_nil)
  have read := (ofBytes_spelledName spelled ends).1
  rw [behind] at read
  exact ⟨spelled, read⟩

end

end Token

end PdfContent
