import PdfContent.Node
import PdfContent.Operand.Leaf
import PdfContent.Proofs.CidMeaning
import PdfContent.Proofs.Codespaces

/-!
Maps that take every code of two bytes for its own identifier. A font over such a map splits strings
just where a font over the built-in identity does, up to the byte at which a string breaks off, and
asks widths, texts and the program for the same identifiers. So both show the same glyphs and have
the same strings that cannot be decoded. A map that is written with one range from 0000 to FFFF is
such a map: the range is as wide as a range may be.
-/

namespace PdfContent

def twoByteSpace : CodespaceRange := ⟨[0x00, 0x00], [0xFF, 0xFF]⟩

/-- Splits strings into codes of two bytes and takes each for its own identifier. -/
structure CidCMap.IsIdentity (map : CidCMap) : Prop where
  codespaces : map.codespaces = [twoByteSpace]
  lookup : ∀ code, code < 0x10000 → map.lookup code = some code

namespace CodeReader

theorem le_greatest (b : UInt8) : b ≤ 0xFF := by
  rw [UInt8.le_iff_toNat_le]
  exact Nat.le_of_lt_succ b.toNat_lt

theorem codeLength_twoByteSpace (first : UInt8) (rest : Bytes) :
    (codespace [twoByteSpace]).codeLength first rest = twoByte.codeLength first rest := by
  have length : twoByteSpace.byteLength = 2 := rfl
  cases rest with
  | nil =>
    have short : twoByteSpace.covers [first] = false := rfl
    have begins : twoByteSpace.coversFirst first = true := by
      simp [CodespaceRange.coversFirst, twoByteSpace, le_greatest]
    simp [codeLength, codespaceLength, shortest?, length, short, begins]
  | cons second rest =>
    have whole : twoByteSpace.covers (first :: second :: rest) = true := by
      simp [CodespaceRange.covers, twoByteSpace, le_greatest]
    simp [codeLength, codespaceLength, length, whole]

theorem readFrom_congr {reader other : CodeReader}
    (same : ∀ first rest, reader.codeLength first rest = other.codeLength first rest)
    (offset : Nat) (s : Bytes) : reader.readFrom offset s = other.readFrom offset s := by
  fun_induction reader.readFrom offset s with
  | case1 offset => rw [readFrom]
  | case2 offset first rest length short =>
    rw [readFrom, ← same first rest, if_pos short]
  | case3 offset first rest length long ih =>
    rw [readFrom, ← same first rest, if_neg long, ih]

theorem code_lt_of_readFrom (offset : Nat) (s : Bytes) :
    ∀ codes, twoByte.readFrom offset s = .ok codes → ∀ c ∈ codes, c.code < 0x10000 := by
  fun_induction twoByte.readFrom offset s with
  | case1 offset =>
    intro codes read
    cases read
    simp
  | case2 offset first rest length short =>
    intro codes read
    cases read
  | case3 offset first rest length long ih =>
    intro codes read
    obtain ⟨later, readLater, rfl⟩ := map_eq_ok read
    have sized : (first :: rest.take (length - 1)).length ≤ 2 := by
      have two : length = 2 := rfl
      rw [two, List.length_cons, List.length_take]
      omega
    have small : (ofBytes (first :: rest.take (length - 1))).code < 256 ^ 2 := by
      rw [ofBytes_eq (by omega)]
      exact Bytes.ofDigits_lt_of_length_le sized
    exact List.forall_mem_cons.2 ⟨small, ih later readLater⟩

end CodeReader

def Font.withMap (f : Font) (mapping : CidMapping) (widths : CidWidths)
    (descendant : Option CidFontKind) : Font :=
  { f with body := .composite mapping widths descendant }

def Node.showing (n : Node) (font : Font) (strings : List Bytes) : Node :=
  { n with kind := .textShow (some font) strings }

namespace CidCMap.IsIdentity

variable {map : CidCMap} (h : map.IsIdentity) (f : Font) (widths : CidWidths)
  (descendant : Option CidFontKind)

include h

theorem readCodes_eq (s : Bytes) :
    (f.withMap (.embedded map) widths descendant).readCodes s =
      (f.withMap .identity widths descendant).readCodes s := by
  have reader : CodeReader.ofEmbedded map = .codespace [twoByteSpace] := by
    rw [CodeReader.ofEmbedded, h.codespaces]
    rfl
  change (CodeReader.ofEmbedded map).readFrom 0 s = CodeReader.twoByte.readFrom 0 s
  rw [reader]
  exact CodeReader.readFrom_congr CodeReader.codeLength_twoByteSpace 0 s

theorem glyphOfCode_eq {c : CharCode} (small : c.code < 0x10000) :
    (f.withMap (.embedded map) widths descendant).glyphOfCode c =
      (f.withMap .identity widths descendant).glyphOfCode c := by
  have cid : (f.withMap (.embedded map) widths descendant).cid? c.code = some c.code :=
    h.lookup c.code small
  have builtIn : (f.withMap .identity widths descendant).cid? c.code = some c.code := rfl
  have width : (f.withMap (.embedded map) widths descendant).declaredWidth? c.code =
      (f.withMap .identity widths descendant).declaredWidth? c.code :=
    congrArg (Option.map widths.width) cid
  have check : (f.withMap (.embedded map) widths descendant).check c.code (.cid c.code) =
      (f.withMap .identity widths descendant).check c.code (.cid c.code) := by
    rw [Font.check, Font.check, width]
    rfl
  simp only [Font.glyphOfCode, cid, builtIn, check]
  rfl

theorem glyphs_eq (s : Bytes) :
    (f.withMap (.embedded map) widths descendant).glyphs s =
      (f.withMap .identity widths descendant).glyphs s := by
  rw [Font.glyphs, Font.glyphs, h.readCodes_eq]
  cases read : (f.withMap .identity widths descendant).readCodes s with
  | error fault => rfl
  | ok codes =>
    have small := CodeReader.code_lt_of_readFrom 0 s codes read
    exact congrArg Except.ok (List.map_congr_left fun c hc =>
      h.glyphOfCode_eq f widths descendant (small c hc))

theorem shown_eq (n : Node) (strings : List Bytes) :
    (n.showing (f.withMap (.embedded map) widths descendant) strings).shown =
      (n.showing (f.withMap .identity widths descendant) strings).shown :=
  List.map_congr_left fun s _ => h.glyphs_eq f widths descendant s

end CidCMap.IsIdentity

namespace CidCMap

open CMap Numeral Text

def identityRange : RangeMapping := ⟨0x0000, 0xFFFF, 0⟩

theorem identityRange_cidAt? {code : Nat} (small : code < 0x10000) :
    identityRange.cidAt? code = some code := by
  have within : 0x0000 ≤ code ∧ code ≤ 0xFFFF ∧ 0xFFFF - 0x0000 ≤ 65535 ∧
      0 + (code - 0x0000) < 0x100000000 := by
    omega
  rw [RangeMapping.cidAt?, identityRange, if_pos within]
  simp

variable {codes : List CodeMapping} {ranges : List RangeMapping}

theorem isIdentity_of_written {data : Bytes}
    (h : Written (Utf8.decode data) [twoByteSpace] codes (ranges ++ [identityRange])) :
    ∃ map, parse data = .ok map ∧ map.IsIdentity := by
  obtain ⟨header, space, -, read⟩ := parseText_of_written h
  refine ⟨_, read, ⟨by rw [codespaces_foldl, space], fun code small => ?_⟩⟩
  rw [List.flatMap_append, List.flatMap_singleton, ← List.append_assoc, List.foldl_append,
    lookup_range, identityRange_cidAt? small, Option.some_or]

/-- A composite font shows the same glyphs, with the same warnings, over the built-in identity and
over a map that declares the codespace from 0000 to FFFF and at last the range from 0000 to FFFF
that begins at 0, whatever else the font has and whatever strings are shown. -/
theorem shown_of_writtenIdentity {data : Bytes}
    (h : Written (Utf8.decode data) [twoByteSpace] codes (ranges ++ [identityRange])) :
    ∃ map, parse data = .ok map ∧
      ∀ (f : Font) (widths : CidWidths) (descendant : Option CidFontKind) (n : Node)
        (strings : List Bytes),
        (n.showing (f.withMap (.embedded map) widths descendant) strings).glyphs =
          (n.showing (f.withMap .identity widths descendant) strings).glyphs ∧
        (n.showing (f.withMap (.embedded map) widths descendant) strings).glyphWarnings =
          (n.showing (f.withMap .identity widths descendant) strings).glyphWarnings := by
  obtain ⟨map, read, identity⟩ := isIdentity_of_written h
  refine ⟨map, read, fun f widths descendant n strings => ?_⟩
  have shown := identity.shown_eq f widths descendant n strings
  constructor
  · rw [Node.glyphs, Node.glyphs, shown]
  · rw [Node.glyphWarnings, Node.glyphWarnings, shown]
    rfl

def identitySpaces : Section := ⟨"codespacerange", "\n<0000> <FFFF>\n".toList⟩

def identityRanges : Section := ⟨"cidrange", "\r\n<0000> <ffff> 0\r\n".toList⟩

def identityMap : List Char :=
  "/CMapName /Same def 1 ".toList ++ (identitySpaces.text ++ ("\n1 ".toList ++
    (identityRanges.text ++ "\nendcmap".toList)))

def oddStrings : List Bytes := [[0x00, 0x41], [0xFF, 0xFF, 0x12]]

def oddShow : Node := ⟨3, "TJ", [.array (oddStrings.map .hex)], .generic, none⟩

def bareFont : Font := { body := .composite .identity {} none }

theorem shown_of_writtenIdentity_identityMap :
    Written (Utf8.decode (identityMap.flatMap String.utf8EncodeChar)) [twoByteSpace] []
        ([] ++ [identityRange]) ∧
      ∃ map, parse (identityMap.flatMap String.utf8EncodeChar) = .ok map ∧
        (oddShow.showing (bareFont.withMap (.embedded map) {} none) oddStrings).glyphs =
          (oddShow.showing (bareFont.withMap .identity {} none) oddStrings).glyphs ∧
        (oddShow.showing (bareFont.withMap (.embedded map) {} none) oddStrings).glyphWarnings =
          (oddShow.showing (bareFont.withMap .identity {} none) oddStrings).glyphWarnings := by
  have blank : CMap.Gap [] := by simp [CMap.Gap]
  have space : CMap.Gap [' '] := by simp [CMap.Gap, gapChars]
  have zero : Spells 16 ['0', '0'] (0x00 : UInt8).toNat :=
    spells_map_digitChar [0, 0] (by decide) (by decide)
  have capital : IsDigit 16 'F' 15 := ⟨by decide, .inr (by decide)⟩
  have highest : Spells 16 ['F', 'F'] (0xFF : UInt8).toNat :=
    ⟨by simp, [15, 15], .cons capital (.cons capital .nil), by decide⟩
  have low : SpellsCode "0000".toList 0x0000 :=
    ⟨spells_map_digitChar [0, 0, 0, 0] (by decide) (by decide), by decide⟩
  have high : SpellsCode "ffff".toList 0xFFFF :=
    ⟨spells_map_digitChar [15, 15, 15, 15] (by decide) (by decide), by decide⟩
  have start : Spells 10 "0".toList 0 := spells_map_digitChar [0] (by decide) (by decide)
  have spaceRow : SpaceRow "<0000> <FFFF>".toList twoByteSpace :=
    ⟨"0000".toList, "FFFF".toList, @Tokens.cons [] "0000".toList " <FFFF>".toList _ blank
      (@Tokens.cons [' '] "FFFF".toList [] [] space (.nil blank)), .cons zero (.cons zero .nil),
      .cons highest (.cons highest .nil), rfl, by simp [twoByteSpace]⟩
  have rangeRow : RangeRow "<0000> <ffff> 0".toList identityRange :=
    ⟨"0000".toList, "ffff".toList, ⟨"<0000> <ffff> ".toList, "0".toList, [], rfl,
      @Tokens.cons [] "0000".toList " <ffff> ".toList _ blank
        (@Tokens.cons [' '] "ffff".toList [' '] [] space (.nil space)), start, by decide, blank⟩,
      low, high⟩
  have spaceRows : Rows SpaceRow identitySpaces.body [twoByteSpace] :=
    @Rows.next _ _ [] ['\n'] "<0000> <FFFF>\n".toList [] _ (.blank blank) (by decide)
      (@Rows.next _ _ "<0000> <FFFF>".toList ['\n'] [] _ _ (.row spaceRow) (by decide)
        (.last (.blank blank)))
  have rangeRows : Rows RangeRow identityRanges.body [identityRange] :=
    @Rows.next _ _ [] ['\r', '\n'] "<0000> <ffff> 0\r\n".toList [] _ (.blank blank) (by decide)
      (@Rows.next _ _ "<0000> <ffff> 0".toList ['\r', '\n'] [] _ _ (.row rangeRow) (by decide)
        (.last (.blank blank)))
  have layout : Layout ["codespacerange", "cidchar", "cidrange"] identityMap
      [identitySpaces, identityRanges] :=
    .next (by decide +kernel) (by decide) (.next (by decide +kernel) (by decide)
      (.plain (by decide +kernel)))
  have written : Written identityMap [twoByteSpace] [] ([] ++ [identityRange]) :=
    ⟨_, layout, ⟨[[twoByteSpace]], .cons spaceRows .nil, rfl⟩, ⟨[], .nil, rfl⟩,
      ⟨[[identityRange]], .cons rangeRows .nil, rfl⟩⟩
  rw [← Utf8.decode_flatMap_utf8EncodeChar identityMap] at written
  obtain ⟨map, read, shown⟩ := shown_of_writtenIdentity written
  exact ⟨written, map, read, shown bareFont {} none oddShow oddStrings⟩

end CidCMap

end PdfContent
