import PdfContent.Font.CMap.Cid
import PdfContent.Proofs.CMapNotation

/-!
What a map to character identifiers means. The rows of `codespacerange` sections are its codespace,
in order; for a code it gives what the last `cidrange` row with that code says, or else the last
`cidchar` row for it. Identifiers have 32 bits, so a range may define only the first of its codes.
-/

namespace PdfContent.CidCMap

open CMap Numeral Text

structure CodeMapping where
  code : Nat
  cid : Nat

structure RangeMapping where
  low : Nat
  high : Nat
  start : Nat

def CodeMapping.cidAt? (e : CodeMapping) (code : Nat) : Option Nat :=
  if e.code = code then some e.cid else none

def RangeMapping.cidAt? (r : RangeMapping) (code : Nat) : Option Nat :=
  if r.low ≤ code ∧ code ≤ r.high ∧ r.high - r.low ≤ 65535 ∧
      r.start + (code - r.low) < 0x100000000 then
    some (r.start + (code - r.low))
  else none

def SpaceRow (line : List Char) (r : CodespaceRange) : Prop :=
  ∃ low high, Tokens line [low, high] ∧ SpellsBytes low r.low ∧ SpellsBytes high r.high ∧
    r.low.length = r.high.length ∧ r.low ≠ []

def CodeRow (line : List Char) (e : CodeMapping) : Prop :=
  ∃ code, Numbered line [code] e.cid ∧ SpellsCode code e.code

def RangeRow (line : List Char) (r : RangeMapping) : Prop :=
  ∃ low high, Numbered line [low, high] r.start ∧ SpellsCode low r.low ∧ SpellsCode high r.high

/-- A map with these entries, one in a row, in any number of sections. -/
def Written (text : List Char) (spaces : List CodespaceRange) (codes : List CodeMapping)
    (ranges : List RangeMapping) : Prop :=
  ∃ ss, Layout ["codespacerange", "cidchar", "cidrange"] text ss ∧
    Lists "codespacerange" SpaceRow ss spaces ∧ Lists "cidchar" CodeRow ss codes ∧
    Lists "cidrange" RangeRow ss ranges

theorem keywords : Keywords ["codespacerange", "cidchar", "cidrange"] :=
  ⟨by decide +kernel, by decide +kernel, by decide +kernel⟩

def RangeMapping.entry? (r : RangeMapping) : Option Entry :=
  (span? r.low r.high).map fun span => .range r.low span r.start

def readSpaces (line : List Char) : Except FontFault (List CodespaceRange) :=
  pairRanges (hexTokens line)

theorem reads_spaces : Reads SpaceRow readSpaces id fun r => [r] where
  plain := by
    intro line r h
    obtain ⟨low, high, tokens, lowSpelled, highSpelled, -⟩ := h
    exact tokens.plain (.cons lowSpelled.mem (.cons highSpelled.mem .nil)) (by simp)
  blank := by
    intro line h
    refine ⟨[], ?_, rfl⟩
    rw [readSpaces, hexTokens_gap h]
    rfl
  row := by
    intro line r h
    obtain ⟨low, high, tokens, lowSpelled, highSpelled, same, ne⟩ := h
    refine ⟨[r], ?_, rfl⟩
    rw [readSpaces, tokens.hexTokens_self (.cons lowSpelled.mem (.cons highSpelled.mem .nil))]
    simp [pairRanges, hexBytes_of_spells lowSpelled, hexBytes_of_spells highSpelled, bind,
      Except.bind, same, ne]
    rfl

theorem reads_codes : Reads CodeRow readSingle Option.toList fun e => [.single e.code e.cid] where
  plain := by
    intro line e h
    obtain ⟨code, numbered, spelled⟩ := h
    exact numbered.plain (.cons spelled.mem .nil)
  blank := by
    intro line h
    refine ⟨none, ?_, rfl⟩
    rw [readSingle, hexTokens_gap h]
    rfl
  row := by
    intro line e h
    obtain ⟨code, numbered, spelled⟩ := h
    refine ⟨some (.single e.code e.cid), ?_, rfl⟩
    rw [readSingle, numbered.hexTokens_eq (.cons spelled.mem .nil),
      numbered.trailingNumber?_eq (by simp)]
    simp only [hexCode_of_spells spelled]
    rfl

theorem reads_ranges : Reads RangeRow readRange Option.toList fun r => r.entry?.toList where
  plain := by
    intro line r h
    obtain ⟨low, high, numbered, lowSpelled, highSpelled⟩ := h
    exact numbered.plain (.cons lowSpelled.mem (.cons highSpelled.mem .nil))
  blank := by
    intro line h
    refine ⟨none, ?_, rfl⟩
    rw [readRange, hexTokens_gap h]
    rfl
  row := by
    intro line r h
    obtain ⟨low, high, numbered, lowSpelled, highSpelled⟩ := h
    refine ⟨r.entry?, ?_, rfl⟩
    rw [readRange, numbered.hexTokens_eq (.cons lowSpelled.mem (.cons highSpelled.mem .nil)),
      numbered.trailingNumber?_eq (by simp)]
    simp only [hexCode_of_spells lowSpelled, hexCode_of_spells highSpelled]
    rfl

theorem lookup_insert (m : CidCMap) (at_ cid code : Nat) :
    (m.insert at_ cid).lookup code =
      (if at_ = code then some cid else none).or (m.lookup code) :=
  getElem?_insert_or m.cids at_ cid code

theorem lookup_insertRange (m : CidCMap) (low start n code : Nat) :
    ((List.range n).foldl (fun m k => m.insert (low + k) (start + k)) m).lookup code =
      (if low ≤ code ∧ code < low + n then some (start + (code - low)) else none).or
        (m.lookup code) :=
  lookup_foldl_range (fun m i k => lookup_insert m (low + i) (start + i) k) n m code

theorem lookup_range (m : CidCMap) (r : RangeMapping) (code : Nat) :
    (r.entry?.toList.foldl apply m).lookup code = (r.cidAt? code).or (m.lookup code) := by
  by_cases usable : r.low ≤ r.high ∧ r.high - r.low ≤ 65535
  · have same : (r.low ≤ code ∧ code < r.low + min (r.high - r.low + 1) (room r.start)) ↔
        (r.low ≤ code ∧ code ≤ r.high ∧ r.high - r.low ≤ 65535 ∧
          r.start + (code - r.low) < 0x100000000) := by
      simp only [room, greatest32]
      omega
    simp only [RangeMapping.entry?, span?_eq, if_pos usable, Option.map_some, Option.toList_some,
      List.foldl_cons, List.foldl_nil, apply, lookup_insertRange, same, RangeMapping.cidAt?]
  · have outside : ¬ (r.low ≤ code ∧ code ≤ r.high ∧ r.high - r.low ≤ 65535 ∧
        r.start + (code - r.low) < 0x100000000) := by
      omega
    simp only [RangeMapping.entry?, span?_eq, if_neg usable, if_neg outside, Option.map_none,
      Option.toList_none, List.foldl_nil, Option.none_or, RangeMapping.cidAt?]

theorem codespaces_apply (m : CidCMap) (e : Entry) : (apply m e).codespaces = m.codespaces := by
  cases e with
  | single code cid => rfl
  | range low span start =>
    have fold : ∀ offsets : List Nat, ∀ m : CidCMap, (offsets.foldl
        (fun m k => m.insert (low + k) (start + k)) m).codespaces = m.codespaces := by
      intro offsets
      induction offsets with
      | nil => exact fun m => rfl
      | cons k offsets ih => exact fun m => (ih _).trans rfl
    exact fold _ m

theorem codespaces_foldl (list : List Entry) (m : CidCMap) :
    (list.foldl apply m).codespaces = m.codespaces := by
  induction list generalizing m with
  | nil => rfl
  | cons e list ih => rw [List.foldl_cons, ih, codespaces_apply]

def header (text : List Char) (spaces : List CodespaceRange) : CidCMap where
  codespaces := spaces
  name := nameAfter? "/CMapName" text
  writingMode := writingModeOf text
  parent := parentOf? text

theorem parseText_eq_gather (text : List Char) :
    parseText text =
      (gather readSpaces id (entryLines "codespacerange" text)).bind fun spaces =>
      (gather readSingle Option.toList (entryLines "cidchar" text)).bind fun singles =>
      (gather readRange Option.toList (entryLines "cidrange" text)).map fun ranges =>
        (singles ++ ranges).foldl apply (header text spaces) := by
  have lines : (fun line => pairRanges (hexTokens line)) = readSpaces := rfl
  rw [parseText, lines, gather, gather, gather]
  cases (entryLines "codespacerange" text).mapM readSpaces with
  | error e => rfl
  | ok spaces =>
    cases (entryLines "cidchar" text).mapM readSingle with
    | error e => rfl
    | ok singles =>
      cases (entryLines "cidrange" text).mapM readRange with
      | error e => rfl
      | ok ranges =>
        show Except.ok (((singles ++ ranges).filterMap id).foldl apply (header text _)) = _
        rw [filterMap_id_append, ← List.flatMap_id]
        rfl

theorem parseText_of_written {text : List Char} {spaces : List CodespaceRange}
    {codes : List CodeMapping} {ranges : List RangeMapping}
    (h : Written text spaces codes ranges) :
    ∃ header : CidCMap, header.codespaces = spaces ∧ header.cids = ∅ ∧
      parseText text = .ok (((codes.map fun e => Entry.single e.code e.cid) ++
        ranges.flatMap fun r => r.entry?.toList).foldl apply header) := by
  obtain ⟨ss, layout, spaceLists, codeLists, rangeLists⟩ := h
  have clean : ∀ s ∈ ss, WithoutWords s.body := by
    intro s hs
    have keyword := layout.keyword_mem s hs
    simp only [List.mem_cons, List.not_mem_nil, or_false] at keyword
    rcases keyword with same | same | same
    · exact spaceLists.withoutWords reads_spaces.plain s hs same
    · exact codeLists.withoutWords reads_codes.plain s hs same
    · exact rangeLists.withoutWords reads_ranges.plain s hs same
  have found := layout.yields keywords (by simp) clean spaceLists reads_spaces
  have singles := layout.yields keywords (by simp) clean codeLists reads_codes
  have more := layout.yields keywords (by simp) clean rangeLists reads_ranges
  rw [List.flatMap_singleton'] at found
  refine ⟨header text spaces, rfl, rfl, ?_⟩
  rw [parseText_eq_gather, yields_iff.1 found, yields_iff.1 singles, yields_iff.1 more,
    List.map_eq_flatMap]
  rfl

/-- A map that lists these entries can be read. Its codespace is the listed one, and a code has the
identifier of the last range that defines it, or else of the last single entry for it. -/
theorem cids_of_written {data : Bytes} {spaces : List CodespaceRange} {codes : List CodeMapping}
    {ranges : List RangeMapping} (h : Written (Utf8.decode data) spaces codes ranges) :
    ∃ m, parse data = .ok m ∧ m.codespaces = spaces ∧ ∀ code, m.lookup code =
      (ranges.reverse.findSome? fun r => r.cidAt? code).or
        (codes.reverse.findSome? fun e => e.cidAt? code) := by
  have single : ∀ (m : CidCMap) (e : CodeMapping) (code : Nat),
      (apply m (.single e.code e.cid)).lookup code = (e.cidAt? code).or (m.lookup code) :=
    fun m e code => lookup_insert m e.code e.cid code
  obtain ⟨header, space, empty, read⟩ := parseText_of_written h
  refine ⟨_, read, by rw [codespaces_foldl, space], fun code => ?_⟩
  have before : header.lookup code = none := by simp [lookup, empty]
  rw [List.foldl_append, List.foldl_map, List.foldl_flatMap, foldl_eq_findSome? lookup_range,
    foldl_eq_findSome? single, before, Option.or_none]

def shortSpaces : Section := ⟨"codespacerange", "\n<00> <7f>\n".toList⟩

def shortCodes : Section := ⟨"cidchar", "\n<41> 34\n".toList⟩

def shortRanges : Section := ⟨"cidrange", "\n<10> <11> 4294967295".toList⟩

def shortMap : List Char :=
  "/CMapName /H def ".toList ++ (shortSpaces.text ++ ("\n".toList ++ (shortCodes.text ++
    (" ".toList ++ (shortRanges.text ++ "\n".toList)))))

theorem cids_of_written_shortMap :
    Written (Utf8.decode (shortMap.flatMap String.utf8EncodeChar)) [⟨[0x00], [0x7F]⟩]
        [⟨0x41, 34⟩] [⟨0x10, 0x11, 4294967295⟩] ∧
      ∃ m, parse (shortMap.flatMap String.utf8EncodeChar) = .ok m ∧
        m.codespaces = [⟨[0x00], [0x7F]⟩] ∧ m.lookup 0x41 = some 34 ∧
        m.lookup 0x10 = some 4294967295 ∧ m.lookup 0x11 = none := by
  have blank : Gap [] := by simp [Gap]
  have space : Gap [' '] := by simp [Gap, gapChars]
  have lowest : Spells 16 ['0', '0'] (0x00 : UInt8).toNat :=
    spells_map_digitChar [0, 0] (by decide) (by decide)
  have highest : Spells 16 ['7', 'f'] (0x7F : UInt8).toNat :=
    spells_map_digitChar [7, 15] (by decide) (by decide)
  have letter : SpellsCode "41".toList 0x41 :=
    ⟨spells_map_digitChar [4, 1] (by decide) (by decide), by decide⟩
  have low : SpellsCode "10".toList 0x10 :=
    ⟨spells_map_digitChar [1, 0] (by decide) (by decide), by decide⟩
  have high : SpellsCode "11".toList 0x11 :=
    ⟨spells_map_digitChar [1, 1] (by decide) (by decide), by decide⟩
  have cid : Spells 10 "34".toList 34 :=
    spells_map_digitChar [3, 4] (by decide) (by decide)
  have start : Spells 10 "4294967295".toList 4294967295 :=
    spells_map_digitChar [4, 2, 9, 4, 9, 6, 7, 2, 9, 5] (by decide) (by decide)
  have spaceRow : SpaceRow "<00> <7f>".toList ⟨[0x00], [0x7F]⟩ :=
    ⟨"00".toList, "7f".toList, @Tokens.cons [] "00".toList " <7f>".toList _ blank
      (@Tokens.cons [' '] "7f".toList [] [] space (.nil blank)), .cons lowest .nil,
      .cons highest .nil, rfl, by simp⟩
  have codeRow : CodeRow "<41> 34".toList ⟨0x41, 34⟩ :=
    ⟨"41".toList, ⟨"<41> ".toList, "34".toList, [], rfl,
      @Tokens.cons [] "41".toList [' '] [] blank (.nil space), cid, by decide, blank⟩, letter⟩
  have rangeRow : RangeRow "<10> <11> 4294967295".toList ⟨0x10, 0x11, 4294967295⟩ :=
    ⟨"10".toList, "11".toList, ⟨"<10> <11> ".toList, "4294967295".toList, [], rfl,
      @Tokens.cons [] "10".toList " <11> ".toList _ blank
        (@Tokens.cons [' '] "11".toList [' '] [] space (.nil space)), start, by decide, blank⟩,
      low, high⟩
  have spaceRows : Rows SpaceRow shortSpaces.body [⟨[0x00], [0x7F]⟩] :=
    @Rows.next _ _ [] ['\n'] "<00> <7f>\n".toList [] _ (.blank blank) (by decide)
      (@Rows.next _ _ "<00> <7f>".toList ['\n'] [] _ _ (.row spaceRow) (by decide)
        (.last (.blank blank)))
  have codeRows : Rows CodeRow shortCodes.body [⟨0x41, 34⟩] :=
    @Rows.next _ _ [] ['\n'] "<41> 34\n".toList [] _ (.blank blank) (by decide)
      (@Rows.next _ _ "<41> 34".toList ['\n'] [] _ _ (.row codeRow) (by decide)
        (.last (.blank blank)))
  have rangeRows : Rows RangeRow shortRanges.body [⟨0x10, 0x11, 4294967295⟩] :=
    @Rows.next _ _ [] ['\n'] "<10> <11> 4294967295".toList [] _ (.blank blank) (by decide)
      (.last (.row rangeRow))
  have layout : Layout ["codespacerange", "cidchar", "cidrange"] shortMap
      [shortSpaces, shortCodes, shortRanges] :=
    .next (by decide +kernel) (by decide) (.next (by decide +kernel) (by decide)
      (.next (by decide +kernel) (by decide) (.plain (by decide +kernel))))
  have written : Written shortMap [⟨[0x00], [0x7F]⟩] [⟨0x41, 34⟩] [⟨0x10, 0x11, 4294967295⟩] :=
    ⟨_, layout, ⟨[[⟨[0x00], [0x7F]⟩]], .cons spaceRows .nil, rfl⟩,
      ⟨[[⟨0x41, 34⟩]], .cons codeRows .nil, rfl⟩,
      ⟨[[⟨0x10, 0x11, 4294967295⟩]], .cons rangeRows .nil, rfl⟩⟩
  rw [← Utf8.decode_flatMap_utf8EncodeChar shortMap] at written
  obtain ⟨m, read, spaces, found⟩ := cids_of_written written
  exact ⟨written, m, read, spaces, found 0x41, found 0x10, found 0x11⟩

end PdfContent.CidCMap
