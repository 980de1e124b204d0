import PdfContent.Proofs.CodeSplitting

/-!
Maps whose entries are written for codes of several lengths. A map keeps the value of a code and not
its length, so an entry answers for every code of its value, also for one that zeros in front make
longer. The font gives what the entries of a code's own length say wherever no entry of another
length has its value.
-/

namespace PdfContent.CidCMap

open CMap Numeral Text

structure SourceCode where
  code : Bytes
  cid : Nat

structure SourceRange where
  low : Bytes
  high : Bytes
  start : Nat

def SourceCode.mapping (e : SourceCode) : CodeMapping := ⟨Bytes.bigEndian e.code, e.cid⟩

def SourceRange.mapping (r : SourceRange) : RangeMapping :=
  ⟨Bytes.bigEndian r.low, Bytes.bigEndian r.high, r.start⟩

def SpellsSource (hex : List Char) (code : Bytes) : Prop :=
  SpellsBytes hex code ∧ code ≠ [] ∧ Bytes.bigEndian code < 0x100000000

def SourceCodeRow (line : List Char) (e : SourceCode) : Prop :=
  ∃ code, Numbered line [code] e.cid ∧ SpellsSource code e.code

def SourceRangeRow (line : List Char) (r : SourceRange) : Prop :=
  ∃ low high, Numbered line [low, high] r.start ∧ SpellsSource low r.low ∧
    SpellsSource high r.high ∧ r.low.length = r.high.length

def WrittenInBytes (text : List Char) (spaces : List CodespaceRange) (codes : List SourceCode)
    (ranges : List SourceRange) : Prop :=
  ∃ ss, Layout ["codespacerange", "cidchar", "cidrange"] text ss ∧
    Lists "codespacerange" SpaceRow ss spaces ∧ Lists "cidchar" SourceCodeRow ss codes ∧
    Lists "cidrange" SourceRangeRow ss ranges

theorem exists_digits_of_spellsBytes {hex : List Char} {bytes : Bytes} (h : SpellsBytes hex bytes) :
    ∃ digits, List.Forall₂ (IsDigit 16) hex digits ∧ ∀ value,
      digits.foldl (fun v d => v * 16 + d) value =
        bytes.foldl (fun v b => v * 256 + b.toNat) value := by
  induction h with
  | nil => exact ⟨[], .nil, fun value => rfl⟩
  | @cons a b hex bytes byte head _ ih =>
    obtain ⟨digits, own, same⟩ := ih
    obtain ⟨-, pair, spelled, value⟩ := head
    cases spelled with
    | @cons _ high _ _ first spelled =>
      cases spelled with
      | @cons _ low _ _ second spelled =>
        cases spelled
        refine ⟨high :: low :: digits, .cons first (.cons second own), fun start => ?_⟩
        have two : (start * 16 + high) * 16 + low = start * 256 + byte.toNat := by
          simp only [List.reverse_cons, List.reverse_nil, List.nil_append, List.cons_append,
            Nat.ofDigits_cons, Nat.ofDigits_nil] at value
          omega
        rw [List.foldl_cons, List.foldl_cons, List.foldl_cons, two, same]

theorem SpellsSource.spellsCode {hex : List Char} {code : Bytes} (h : SpellsSource hex code) :
    SpellsCode hex (Bytes.bigEndian code) := by
  obtain ⟨spelled, ne, small⟩ := h
  obtain ⟨digits, own, same⟩ := exists_digits_of_spellsBytes spelled
  have some : hex ≠ [] := by
    rintro rfl
    cases spelled
    exact ne rfl
  exact ⟨⟨some, digits, own, by rw [ofDigits_reverse, same]; rfl⟩, small⟩

section Rows

variable {α β : Type} {Row : List Char → α → Prop} {Row' : List Char → β → Prop} {f : α → β}

theorem rows_map (weaken : ∀ line e, Row line e → Row' line (f e)) {body : List Char}
    {entries : List α} (h : Rows Row body entries) : Rows Row' body (entries.map f) := by
  have own {line : List Char} {entries : List α} (h : Line Row line entries) :
      Line Row' line (entries.map f) := by
    cases h with
    | blank gap => exact .blank gap
    | row row => exact .row (weaken _ _ row)
  induction h with
  | last line => exact .last (own line)
  | next line mem _ ih =>
    rw [List.map_append]
    exact .next (own line) mem ih

theorem lists_map (weaken : ∀ line e, Row line e → Row' line (f e)) {keyword : String}
    {ss : List Section} {entries : List α} (h : Lists keyword Row ss entries) :
    Lists keyword Row' ss (entries.map f) := by
  obtain ⟨parts, rows, rfl⟩ := h
  refine ⟨parts.map (List.map f), ?_, List.map_flatten.symm⟩
  rw [List.forall₂_map_right_iff]
  exact rows.imp fun _ _ => rows_map weaken

end Rows

variable {text : List Char} {data : Bytes} {spaces : List CodespaceRange}
  {codes : List SourceCode} {ranges : List SourceRange}

theorem WrittenInBytes.written (h : WrittenInBytes text spaces codes ranges) :
    Written text spaces (codes.map SourceCode.mapping) (ranges.map SourceRange.mapping) := by
  obtain ⟨ss, layout, spaceLists, codeLists, rangeLists⟩ := h
  refine ⟨ss, layout, spaceLists, lists_map ?_ codeLists, lists_map ?_ rangeLists⟩
  · rintro line e ⟨code, numbered, spelled⟩
    exact ⟨code, numbered, spelled.spellsCode⟩
  · rintro line r ⟨low, high, numbered, lowSpelled, highSpelled, -⟩
    exact ⟨low, high, numbered, lowSpelled.spellsCode, highSpelled.spellsCode⟩

/-- The identifier that the entries give to a value: the last range, or else the last single
entry. -/
def cidByValue? (codes : List SourceCode) (ranges : List SourceRange) (value : Nat) : Option Nat :=
  (ranges.reverse.findSome? fun r => r.mapping.cidAt? value).or
    (codes.reverse.findSome? fun e => e.mapping.cidAt? value)

theorem lookup_of_writtenInBytes (h : WrittenInBytes (Utf8.decode data) spaces codes ranges) :
    ∃ map, parse data = .ok map ∧ map.codespaces = spaces ∧
      ∀ value, map.lookup value = cidByValue? codes ranges value := by
  have single : ∀ (m : CidCMap) (e : SourceCode) (value : Nat),
      (apply m (.single e.mapping.code e.mapping.cid)).lookup value =
        (e.mapping.cidAt? value).or (m.lookup value) :=
    fun m e value => lookup_insert m e.mapping.code e.mapping.cid value
  have range : ∀ (m : CidCMap) (r : SourceRange) (value : Nat),
      (r.mapping.entry?.toList.foldl apply m).lookup value =
        (r.mapping.cidAt? value).or (m.lookup value) :=
    fun m r value => lookup_range m r.mapping value
  obtain ⟨header, space, empty, read⟩ := parseText_of_written h.written
  refine ⟨_, read, by rw [codespaces_foldl, space], fun value => ?_⟩
  have before : header.lookup value = none := by simp [lookup, empty]
  rw [List.foldl_append, List.foldl_map, List.foldl_map, List.foldl_flatMap, List.foldl_map,
    foldl_eq_findSome? range, foldl_eq_findSome? single, before, Option.or_none, cidByValue?]

def SourceCode.ownCid? (e : SourceCode) (s : Bytes) : Option Nat :=
  if e.code.length = s.length then e.mapping.cidAt? (Bytes.bigEndian s) else none

def SourceRange.ownCid? (r : SourceRange) (s : Bytes) : Option Nat :=
  if r.low.length = s.length then r.mapping.cidAt? (Bytes.bigEndian s) else none

/-- The identifier by the entries that are written for as many bytes as the code has. -/
def ownCid? (codes : List SourceCode) (ranges : List SourceRange) (s : Bytes) : Option Nat :=
  (ranges.reverse.findSome? fun r => r.ownCid? s).or
    (codes.reverse.findSome? fun e => e.ownCid? s)

/-- No entry that is written for another number of bytes has the value of the code. -/
structure Unshared (codes : List SourceCode) (ranges : List SourceRange) (s : Bytes) : Prop where
  code : ∀ e ∈ codes, e.mapping.cidAt? (Bytes.bigEndian s) ≠ none → e.code.length = s.length
  range : ∀ r ∈ ranges, r.mapping.cidAt? (Bytes.bigEndian s) ≠ none → r.low.length = s.length

theorem findSome?_congr_left {α β : Type} {f g : α → Option β} {list : List α}
    (h : ∀ x ∈ list, f x = g x) : list.findSome? f = list.findSome? g := by
  have values : ∀ f : α → Option β, list.findSome? f = (list.map f).findSome? id :=
    fun f => by rw [List.findSome?_map, Function.id_comp]
  rw [values f, values g, List.map_congr_left h]

theorem Unshared.ownCid?_eq {s : Bytes} (h : Unshared codes ranges s) :
    ownCid? codes ranges s = cidByValue? codes ranges (Bytes.bigEndian s) := by
  have code : ∀ e ∈ codes.reverse, e.ownCid? s = e.mapping.cidAt? (Bytes.bigEndian s) := by
    intro e mem
    have same := h.code e (List.mem_reverse.1 mem)
    rw [SourceCode.ownCid?]
    split
    · rfl
    · rename_i other
      exact (not_not.1 (mt same other)).symm
  have range : ∀ r ∈ ranges.reverse, r.ownCid? s = r.mapping.cidAt? (Bytes.bigEndian s) := by
    intro r mem
    have same := h.range r (List.mem_reverse.1 mem)
    rw [SourceRange.ownCid?]
    split
    · rfl
    · rename_i other
      exact (not_not.1 (mt same other)).symm
  rw [ownCid?, cidByValue?, findSome?_congr_left code, findSome?_congr_left range]

/-- The identifier that a font reports for a code is that of the last range with the value of the
code's bytes, or else of the last single entry, however many bytes the entry is written with. Where
no entry of another length has the value, it is that of the last entry of the code's length. -/
theorem cid_of_sources (h : WrittenInBytes (Utf8.decode data) spaces codes ranges) :
    ∃ map, parse data = .ok map ∧ map.codespaces = spaces ∧
      ∀ (f : Font) (widths : CidWidths) (descendant : Option CidFontKind),
        f.body = .composite (.embedded map) widths descendant →
        ∀ (s : Bytes) (read : List CharCode), f.readCodes s = .ok read → ∀ c ∈ read,
          f.cid? c.code = cidByValue? codes ranges (Bytes.bigEndian c.bytes % 2 ^ 32) ∧
          (f.glyphOfCode c).cid? = f.cid? c.code ∧
          (c.bytes.length ≤ 4 → Unshared codes ranges c.bytes →
            f.cid? c.code = ownCid? codes ranges c.bytes) := by
  obtain ⟨map, parsed, space, found⟩ := lookup_of_writtenInBytes h
  refine ⟨map, parsed, space, ?_⟩
  rintro ⟨_, baseFont, toUnicode, program⟩ widths descendant rfl s read codesRead c mem
  have steady := (CodeReader.Obtained.ofEmbedded parsed).steady
  have made := ((CodeReader.readFrom_ok steady 0 s read codesRead).2 c mem).2
  have value : c.code = Bytes.bigEndian c.bytes % 2 ^ 32 := congrArg CharCode.code made
  have cid : map.lookup c.code =
      cidByValue? codes ranges (Bytes.bigEndian c.bytes % 2 ^ 32) := by
    rw [← value]
    exact found c.code
  refine ⟨cid, rfl, fun short unshared => cid.trans ?_⟩
  have small : Bytes.bigEndian c.bytes < 2 ^ 32 := by
    rw [Bytes.bigEndian_eq_ofDigits]
    exact Bytes.ofDigits_lt_of_length_le short
  rw [Nat.mod_eq_of_lt small, unshared.ownCid?_eq]

def mixedSpaces : List CodespaceRange := [⟨[0x01], [0x01]⟩, ⟨[0x00, 0x00], [0x00, 0xFF]⟩]

def mixedCodes : List SourceCode := [⟨[0x01], 5⟩]

def mixedEntries : List SourceRange := [⟨[0x00, 0x10], [0x00, 0x20], 100⟩]

def mixedSpaceRows : Section := ⟨"codespacerange", "\n<01> <01>\n<0000> <00FF>\n".toList⟩

def mixedCodeRows : Section := ⟨"cidchar", "\n<01> 5\n".toList⟩

def mixedRangeRows : Section := ⟨"cidrange", "\n<0010> <0020> 100\n".toList⟩

def mixedMap : List Char :=
  "2 ".toList ++ (mixedSpaceRows.text ++ ("\n1 ".toList ++ (mixedCodeRows.text ++
    ("\n1 ".toList ++ (mixedRangeRows.text ++ "\nendcmap".toList)))))

theorem writtenInBytes_mixedMap :
    WrittenInBytes (Utf8.decode (mixedMap.flatMap String.utf8EncodeChar)) mixedSpaces mixedCodes
      mixedEntries := by
  have blank : CMap.Gap [] := by simp [CMap.Gap]
  have space : CMap.Gap [' '] := by simp [CMap.Gap, gapChars]
  have zero : Spells 16 ['0', '0'] (0x00 : UInt8).toNat :=
    spells_map_digitChar [0, 0] (by decide) (by decide)
  have one : Spells 16 ['0', '1'] (0x01 : UInt8).toNat :=
    spells_map_digitChar [0, 1] (by decide) (by decide)
  have low : Spells 16 ['1', '0'] (0x10 : UInt8).toNat :=
    spells_map_digitChar [1, 0] (by decide) (by decide)
  have high : Spells 16 ['2', '0'] (0x20 : UInt8).toNat :=
    spells_map_digitChar [2, 0] (by decide) (by decide)
  have capital : IsDigit 16 'F' 15 := ⟨by decide, .inr (by decide)⟩
  have highest : Spells 16 ['F', 'F'] (0xFF : UInt8).toNat :=
    ⟨by simp, [15, 15], .cons capital (.cons capital .nil), by decide⟩
  have five : Spells 10 ['5'] 5 := spells_map_digitChar [5] (by decide) (by decide)
  have hundred : Spells 10 ['1', '0', '0'] 100 :=
    spells_map_digitChar [1, 0, 0] (by decide) (by decide)
  have shortRow : SpaceRow "<01> <01>".toList ⟨[0x01], [0x01]⟩ :=
    ⟨"01".toList, "01".toList, @Tokens.cons [] "01".toList " <01>".toList _ blank
      (@Tokens.cons [' '] "01".toList [] [] space (.nil blank)), .cons one .nil, .cons one .nil,
      rfl, by simp⟩
  have longRow : SpaceRow "<0000> <00FF>".toList ⟨[0x00, 0x00], [0x00, 0xFF]⟩ :=
    ⟨"0000".toList, "00FF".toList, @Tokens.cons [] "0000".toList " <00FF>".toList _ blank
      (@Tokens.cons [' '] "00FF".toList [] [] space (.nil blank)), .cons zero (.cons zero .nil),
      .cons zero (.cons highest .nil), rfl, by simp⟩
  have codeRow : SourceCodeRow "<01> 5".toList ⟨[0x01], 5⟩ :=
    ⟨"01".toList, ⟨"<01> ".toList, ['5'], [], rfl,
      @Tokens.cons [] "01".toList [' '] [] blank (.nil space), five, by decide, blank⟩,
      .cons one .nil, by simp, by decide⟩
  have rangeRow : SourceRangeRow "<0010> <0020> 100".toList ⟨[0x00, 0x10], [0x00, 0x20], 100⟩ :=
    ⟨"0010".toList, "0020".toList, ⟨"<0010> <0020> ".toList, ['1', '0', '0'], [], rfl,
      @Tokens.cons [] "0010".toList " <0020> ".toList _ blank
        (@Tokens.cons [' '] "0020".toList [' '] [] space (.nil space)), hundred, by decide, blank⟩,
      ⟨.cons zero (.cons low .nil), by simp, by decide⟩,
      ⟨.cons zero (.cons high .nil), by simp, by decide⟩, rfl⟩
  have spaceRows : Rows SpaceRow mixedSpaceRows.body mixedSpaces :=
    @Rows.next _ _ [] ['\n'] "<01> <01>\n<0000> <00FF>\n".toList [] _ (.blank blank) (by decide)
      (@Rows.next _ _ "<01> <01>".toList ['\n'] "<0000> <00FF>\n".toList _ _ (.row shortRow)
        (by decide) (@Rows.next _ _ "<0000> <00FF>".toList ['\n'] [] _ _ (.row longRow)
          (by decide) (.last (.blank blank))))
  have codeRows : Rows SourceCodeRow mixedCodeRows.body mixedCodes :=
    @Rows.next _ _ [] ['\n'] "<01> 5\n".toList [] _ (.blank blank) (by decide)
      (@Rows.next _ _ "<01> 5".toList ['\n'] [] _ _ (.row codeRow) (by decide)
        (.last (.blank blank)))
  have rangeRows : Rows SourceRangeRow mixedRangeRows.body mixedEntries :=
    @Rows.next _ _ [] ['\n'] "<0010> <0020> 100\n".toList [] _ (.blank blank) (by decide)
      (@Rows.next _ _ "<0010> <0020> 100".toList ['\n'] [] _ _ (.row rangeRow) (by decide)
        (.last (.blank blank)))
  have layout : Layout ["codespacerange", "cidchar", "cidrange"] mixedMap
      [mixedSpaceRows, mixedCodeRows, mixedRangeRows] :=
    .next (by decide +kernel) (by decide) (.next (by decide +kernel) (by decide)
      (.next (by decide +kernel) (by decide) (.plain (by decide +kernel))))
  rw [Utf8.decode_flatMap_utf8EncodeChar]
  exact ⟨_, layout, ⟨[mixedSpaces], .cons spaceRows .nil, rfl⟩,
    ⟨[mixedCodes], .cons codeRows .nil, rfl⟩, ⟨[mixedEntries], .cons rangeRows .nil, rfl⟩⟩

theorem matches_mixedSpaces {s : Bytes} :
    (∃ r ∈ mixedSpaces, r.Matches s) ↔ s = [0x01] ∨ ∃ b, s = [0x00, b] := by
  have single : (⟨[0x01], [0x01]⟩ : CodespaceRange).Matches s ↔ s = [0x01] := by
    simp only [CodespaceRange.Matches, List.zip_cons_cons, List.zip_nil_left,
      List.forall₂_cons_left_iff, List.forall₂_nil_left_iff]
    constructor
    · rintro ⟨b, -, ⟨lower, upper⟩, rfl, rfl⟩
      rw [UInt8.le_antisymm upper lower]
    · rintro rfl
      exact ⟨0x01, [], by decide, rfl, rfl⟩
  have double : (⟨[0x00, 0x00], [0x00, 0xFF]⟩ : CodespaceRange).Matches s ↔
      ∃ b, s = [0x00, b] := by
    simp only [CodespaceRange.Matches, List.zip_cons_cons, List.zip_nil_left,
      List.forall₂_cons_left_iff, List.forall₂_nil_left_iff]
    constructor
    · rintro ⟨a, -, ⟨lower, upper⟩, ⟨b, -, -, rfl, rfl⟩, rfl⟩
      exact ⟨b, by rw [UInt8.le_antisymm upper lower]⟩
    · rintro ⟨b, rfl⟩
      have between := CodeReader.le_greatest b
      exact ⟨0x00, [b], by decide, ⟨b, [], ⟨UInt8.zero_le, between⟩, rfl, rfl⟩, rfl⟩
  simp only [mixedSpaces, List.exists_mem_cons_iff, List.not_mem_nil, false_and, exists_false,
    or_false, single, double]

theorem prefixFree_mixedSpaces : CodespaceRange.PrefixFree mixedSpaces := by
  intro r mem r' mem' s code h h' start
  rcases matches_mixedSpaces.1 ⟨r, mem, h⟩ with rfl | ⟨b, rfl⟩ <;>
    rcases matches_mixedSpaces.1 ⟨r', mem', h'⟩ with rfl | ⟨b', rfl⟩ <;>
    simp_all

def mixedString : Bytes := [0x01, 0x00, 0x01, 0x00, 0x12]

def mixedRead : List CharCode := [⟨1, [0x01]⟩, ⟨1, [0x00, 0x01]⟩, ⟨0x12, [0x00, 0x12]⟩]

theorem readCodes_mixedString {map : CidCMap} (space : map.codespaces = mixedSpaces) :
    (bareFont.withMap (.embedded map) {} none).readCodes mixedString = .ok mixedRead := by
  have reader : CodeReader.ofEmbedded map = .codespace mixedSpaces := by
    rw [CodeReader.ofEmbedded, space]
    rfl
  have sized : ∀ r ∈ mixedSpaces, r.IsSized := by
    intro r mem
    simp only [mixedSpaces, List.mem_cons, List.not_mem_nil, or_false] at mem
    rcases mem with rfl | rfl <;> constructor <;> decide
  have mem : ∀ s ∈ [[0x01], [0x00, 0x01], [0x00, 0x12]], ∃ r ∈ mixedSpaces, r.Matches s := by
    simp [matches_mixedSpaces]
  exact (congrArg (CodeReader.readCodes · mixedString) reader).trans
    (CodeReader.readFrom_flatten sized prefixFree_mixedSpaces mem 0)

theorem cid_of_sources_mixedMap :
    WrittenInBytes (Utf8.decode (mixedMap.flatMap String.utf8EncodeChar)) mixedSpaces mixedCodes
        mixedEntries ∧
      ∃ map, parse (mixedMap.flatMap String.utf8EncodeChar) = .ok map ∧
        (bareFont.withMap (.embedded map) {} none).readCodes mixedString = .ok mixedRead ∧
        (bareFont.withMap (.embedded map) {} none).cid? 0x12 =
          ownCid? mixedCodes mixedEntries [0x00, 0x12] ∧
        ownCid? mixedCodes mixedEntries [0x00, 0x12] = some 102 := by
  obtain ⟨map, parsed, space, reported⟩ := cid_of_sources writtenInBytes_mixedMap
  have read := readCodes_mixedString space
  have unshared : Unshared mixedCodes mixedEntries [0x00, 0x12] := by
    constructor
    · simp only [mixedCodes, List.forall_mem_singleton]
      decide
    · simp only [mixedEntries, List.forall_mem_singleton]
      decide
  obtain ⟨-, -, own⟩ := reported _ {} none rfl mixedString mixedRead read ⟨0x12, [0x00, 0x12]⟩
    (by decide)
  exact ⟨writtenInBytes_mixedMap, map, parsed, read, own (by decide) unshared, by decide⟩

/-- All entries are written for codes of the codespace, and no code begins with another. The entry
for 01 still answers for 0001, which has no entry of its own. -/
theorem cid_ne_ownCid :
    WrittenInBytes (Utf8.decode (mixedMap.flatMap String.utf8EncodeChar)) mixedSpaces mixedCodes
        mixedEntries ∧
      CodespaceRange.PrefixFree mixedSpaces ∧
      (∀ e ∈ mixedCodes, ∃ r ∈ mixedSpaces, r.Matches e.code) ∧
      (∀ e ∈ mixedEntries, ∃ r ∈ mixedSpaces, r.Matches e.low ∧ r.Matches e.high) ∧
      ∃ map, parse (mixedMap.flatMap String.utf8EncodeChar) = .ok map ∧
        (bareFont.withMap (.embedded map) {} none).readCodes mixedString = .ok mixedRead ∧
        ⟨1, [0x00, 0x01]⟩ ∈ mixedRead ∧
        (bareFont.withMap (.embedded map) {} none).cid? 1 = some 5 ∧
        ownCid? mixedCodes mixedEntries [0x00, 0x01] = none := by
  obtain ⟨map, parsed, space, found⟩ := lookup_of_writtenInBytes writtenInBytes_mixedMap
  have read := readCodes_mixedString space
  have low : (⟨[0x00, 0x00], [0x00, 0xFF]⟩ : CodespaceRange).Matches [0x00, 0x10] := by
    simp [CodespaceRange.Matches]
  have high : (⟨[0x00, 0x00], [0x00, 0xFF]⟩ : CodespaceRange).Matches [0x00, 0x20] := by
    simp [CodespaceRange.Matches]
  refine ⟨writtenInBytes_mixedMap, prefixFree_mixedSpaces, ?_, ?_, map, parsed, read, by decide,
    (found 1).trans (by decide), by decide⟩
  · simp [mixedCodes, matches_mixedSpaces]
  · simp only [mixedEntries, List.forall_mem_singleton]
    exact ⟨_, List.mem_cons_of_mem _ (List.mem_cons_self ..), low, high⟩

end PdfContent.CidCMap
