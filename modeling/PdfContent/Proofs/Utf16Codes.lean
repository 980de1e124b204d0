import PdfContent.Font
import PdfContent.Proofs.Codespaces
import PdfContent.Proofs.TextUnits

/-!
Strings shown in UTF-16. The first byte of a character tells whether one unit or a surrogate pair is
to be read, so every character of a text is one code, and the bytes of that code are read back as
the character.
-/

namespace PdfContent

namespace Text.Utf16

theorem units_eq_words {s : Bytes} (even : s.length % 2 = 0) : CMap.units s = Bytes.words s := by
  induction s using Bytes.words.induct with
  | case1 a b rest ih =>
    simp only [CMap.units, Bytes.words, List.cons.injEq, true_and]
    exact ih (by simp only [List.length_cons] at even; omega)
  | case2 s short =>
    rcases s with _ | ⟨a, _ | ⟨b, rest⟩⟩
    · rfl
    · simp at even
    · exact absurd rfl (short a b rest)

theorem words_bytes (text : List Char) : Bytes.words (bytes text) = encode text := by
  rw [← units_eq_words (by rw [length_bytes]; omega), units_bytes]

theorem bytes_eq_flatten (text : List Char) :
    bytes text = (text.map fun c => bytes [c]).flatten := by
  induction text with
  | nil => rfl
  | cons c text ih =>
    have split : bytes (c :: text) = bytes [c] ++ bytes text := by
      simp only [bytes, encode, List.flatMap_cons, List.flatMap_nil, List.append_nil,
        List.flatMap_append]
    rw [split, ih, List.map_cons, List.flatten_cons]

theorem bytes_singleton (c : Char) : bytes [c] = (unitsOf c).flatMap bytesOf := by
  simp only [bytes, encode, List.flatMap_cons, List.flatMap_nil, List.append_nil]

theorem startsPair_iff {u : Nat} (h : u < 0x10000) :
    (0xD8 ≤ UInt8.ofNat (u / 256) ∧ UInt8.ofNat (u / 256) ≤ 0xDB) ↔ isHigh u = true := by
  have high : (UInt8.ofNat (u / 256)).toNat = u / 256 := Utf8.toNat_ofNat (by omega)
  simp only [UInt8.le_iff_toNat_le, high, isHigh, Bool.and_eq_true, decide_eq_true_eq]
  change 0xD8 ≤ u / 256 ∧ u / 256 ≤ 0xDB ↔ _
  omega

end Text.Utf16

open Text

namespace CodeReader

theorem codeLength_utf16 {u : Nat} (h : u < 0x10000) (rest : Bytes) :
    utf16.codeLength (UInt8.ofNat (u / 256)) rest = if Utf16.isHigh u then 4 else 2 := by
  simp only [codeLength, Bool.and_eq_true, decide_eq_true_eq, Utf16.startsPair_iff h]

theorem codeLength_bytes (c : Char) : ∃ first tail, Utf16.bytes [c] = first :: tail ∧
    ∀ rest, utf16.codeLength first (tail ++ rest) = (Utf16.bytes [c]).length := by
  obtain ⟨bounded, scalar⟩ := Utf8.toNat_scalar c
  rw [Utf16.bytes_singleton]
  by_cases hc : c.toNat < 0x10000
  · have single : Utf16.isHigh c.toNat = false := by
      simp only [Utf16.isHigh, Bool.and_eq_false_iff, decide_eq_false_iff_not]
      omega
    simp only [Utf16.unitsOf, hc, if_true, Utf16.bytesOf, List.flatMap_cons, List.flatMap_nil,
      List.append_nil]
    refine ⟨_, _, rfl, fun rest => ?_⟩
    rw [codeLength_utf16 hc, single]
    rfl
  · have pair : Utf16.isHigh (0xD800 + (c.toNat - 0x10000) / 0x400) = true := by
      simp only [Utf16.isHigh, Bool.and_eq_true, decide_eq_true_eq]
      omega
    simp only [Utf16.unitsOf, hc, if_false, Utf16.bytesOf, List.flatMap_cons, List.flatMap_nil,
      List.append_nil, List.cons_append, List.nil_append]
    refine ⟨_, _, rfl, fun rest => ?_⟩
    rw [codeLength_utf16 (by omega), pair]
    rfl

theorem readCodes_utf16 (text : List Char) :
    utf16.readCodes (Utf16.bytes text) = .ok (text.map fun c => ofBytes (Utf16.bytes [c])) := by
  rw [Utf16.bytes_eq_flatten]
  have told : ∀ s ∈ text.map fun c => Utf16.bytes [c], ∃ first tail, s = first :: tail ∧
      ∀ rest, utf16.codeLength first (tail ++ rest) = s.length := by
    intro s hs
    obtain ⟨c, -, rfl⟩ := List.mem_map.1 hs
    exact codeLength_bytes c
  have read := readFrom_flatten_of_length told 0
  rw [List.map_map] at read
  exact read

end CodeReader

namespace Font

variable {f : Font} {vertical : Bool} {widths : CidWidths} {descendant : Option CidFontKind}

theorem text?_utf16 (body : f.body = .composite (.predefined (.utf16 vertical)) widths descendant)
    (bare : f.toUnicode = none) (c : Char) :
    f.text? (CodeReader.ofBytes (Utf16.bytes [c])) = some (String.singleton c) := by
  have back : Utf16.decode? (Bytes.words (Utf16.bytes [c])) = some [c] := by
    rw [Utf16.words_bytes, Utf16.decode?_encode]
  simp only [text?, encodedText?, bare, body, CidMapping.text?, CodeReader.ofBytes, back,
    Option.bind_none, Option.none_or, Option.map_some]
  rfl

theorem join_singletons (text : List Char) :
    String.join (text.map String.singleton) = String.ofList text := by
  induction text with
  | nil => rfl
  | cons c text ih => simp [String.join_cons, ih]

/-- A text in UTF-16, shown in a composite font with a predefined map of Unicode and without a map
of its own, is read as one code for every character. Each code has its character as its text, so
the texts put together are the text. -/
theorem texts_of_utf16
    (body : f.body = .composite (.predefined (.utf16 vertical)) widths descendant)
    (bare : f.toUnicode = none) (s : String) :
    ∃ codes, f.readCodes (Utf16.bytes s.toList) = .ok codes ∧ codes.length = s.length ∧
      codes.map f.text? = s.toList.map (fun c => some (String.singleton c)) ∧
      String.join (codes.filterMap f.text?) = s := by
  have reader : f.codeReader = .utf16 := by rw [codeReader, body]; rfl
  have each (c : Char) := text?_utf16 body bare c
  refine ⟨s.toList.map fun c => CodeReader.ofBytes (Utf16.bytes [c]), ?_, ?_, ?_, ?_⟩
  · rw [readCodes, reader, CodeReader.readCodes_utf16]
  · rw [List.length_map, String.length_toList]
  · rw [List.map_map]
    exact List.map_congr_left fun c _ => each c
  · have present : (s.toList.map fun c => CodeReader.ofBytes (Utf16.bytes [c])).filterMap f.text? =
        s.toList.map String.singleton := by
      rw [List.filterMap_map, ← List.filterMap_eq_map']
      exact List.filterMap_congr fun c _ => each c
    rw [present, join_singletons, String.ofList_toList]

def boundaryText : String :=
  String.ofList ['A', Char.ofNat 0xD7FF, Char.ofNat 0xE000, Char.ofNat 0x10000, Char.ofNat 0x10FFFF]

def verticalFont : Font where
  body := .composite (.predefined (.utf16 true)) {} (some .type2)

theorem texts_of_utf16_boundaryText :
    verticalFont.body = .composite (.predefined (.utf16 true)) {} (some .type2) ∧
      verticalFont.toUnicode = none ∧
      Utf16.bytes boundaryText.toList =
        [0x00, 0x41, 0xD7, 0xFF, 0xE0, 0x00, 0xD8, 0x00, 0xDC, 0x00, 0xDB, 0xFF, 0xDF, 0xFF] ∧
      ∃ codes, verticalFont.readCodes (Utf16.bytes boundaryText.toList) = .ok codes ∧
        codes.length = 5 ∧
        codes.map verticalFont.text? =
          boundaryText.toList.map (fun c => some (String.singleton c)) ∧
        String.join (codes.filterMap verticalFont.text?) = boundaryText := by
  have count : boundaryText.length = 5 := by decide
  refine ⟨rfl, rfl, by decide, ?_⟩
  rw [← count]
  exact texts_of_utf16 rfl rfl boundaryText

end Font

end PdfContent
