import PdfContent.Proofs.CMapSpacing
import PdfContent.Proofs.CidMeaning
import PdfContent.Proofs.ToUnicodeMeaning
import PdfContent.Proofs.Traversals

/-!
Which blanks a character map is written with. Two writings of the same entries are read as the same
texts, identifiers and codespace as long as each keeps every entry on one line, and the entries of
all sections but those of a codespace on lines of their own. Without that they may differ.
-/

namespace PdfContent

open CMap Numeral Text

namespace CMap

variable {β γ : Type} {k : String} {read : List Char → Except FontFault β} {out : β → List γ}
  {line line' : List Char} {ws : List Word}

theorem Item.spaced (item : Item) : Spaced item.line item.words := .words item.words

theorem lineReader_of_single (other : k ≠ "codespacerange")
    (blank : ∀ line, Spaced line [] → (read line).map out = .ok [])
    (single : ∀ line (item : Item), item.keyword = k → Spaced line item.words →
      read line = read item.line) : LineReader k read out := by
  intro line items own fit spaced
  have few : items.length ≤ 1 := fit.resolve_left other
  match items with
  | [] => exact blank line spaced
  | [item] =>
    rw [List.flatMap_singleton] at spaced
    rw [single line item (own item (List.mem_singleton_self item)) spaced, List.map_singleton,
      gather_singleton]
  | _ :: _ :: _ => simp at few

theorem Spaced.hexTokens_congr (h : Spaced line ws) (h' : Spaced line' ws) :
    hexTokens line = hexTokens line' := by
  rw [h.hexTokens_eq, h'.hexTokens_eq]

theorem Spaced.trailingNumber?_congr {hex : Digits} {figure : Figure}
    (h : Spaced line (ws ++ [.code hex, .number figure]))
    (h' : Spaced line' (ws ++ [.code hex, .number figure])) :
    trailingNumber? line = trailingNumber? line' := by
  rw [h.trailingNumber?_eq, h'.trailingNumber?_eq]

theorem Spaced.hexTokens_nil (h : Spaced line []) : hexTokens line = [] := h.hexTokens_eq

theorem Spaced.hexTokens_codes {hexes : List Digits} (h : Spaced line (hexes.map Word.code)) :
    hexTokens line = hexes.map Digits.chars := by
  rw [h.hexTokens_eq, List.filterMap_map, ← List.filterMap_eq_map]
  rfl

end CMap

namespace ToUnicodeCMap

theorem lineReader_readSingle : LineReader "bfchar" readSingle Option.toList := by
  refine lineReader_of_single (by decide) ?_ ?_
  · intro line spaced
    rw [readSingle, spaced.hexTokens_nil]
    rfl
  · intro line item _ spaced
    rw [readSingle, spaced.hexTokens_congr item.spaced, readSingle]

theorem readRange_codes {line : List Char} {hexes : List Digits}
    (h : Spaced line (hexes.map Word.code)) : readRange line = readIncreasing line := by
  have bracket : '[' ∉ line := h.not_mem (by decide) (Word.not_mem_codes (by decide))
  rw [readRange, cut?_mark_eq_none bracket]

theorem readRange_array {line : List Char} {low high : Digits} {texts : List Digits}
    (h : Spaced line (Item.array low high texts).words) :
    readRange line = do
      let first ← hexCode low.chars
      let last ← hexCode high.chars
      let targets ← ((texts.map Digits.chars).take (last + 1 - first)).mapM destination
      return some (.listed first targets) := by
  have apart : ∀ w ∈ [low, high].map Word.code, '[' ∉ w.text := Word.not_mem_codes (by decide)
  obtain ⟨front, body, inner, cut, bounds, inside, listed⟩ := h.cut_array apart
  rw [readRange, cut]
  simp only [readListed, inside, bounds.hexTokens_eq, listed.hexTokens_codes, List.filterMap_cons,
    Word.hex?]

theorem lineReader_readRange : LineReader "bfrange" readRange Option.toList := by
  refine lineReader_of_single (by decide) ?_ ?_
  · intro line spaced
    have codes : Spaced line (([] : List Digits).map Word.code) := spaced
    rw [readRange_codes codes, readIncreasing, spaced.hexTokens_nil]
    rfl
  · intro line item own spaced
    cases item with
    | array low high texts => rw [readRange_array spaced, readRange_array (Item.spaced _)]
    | range low high text =>
      have codes : Spaced line ([low, high, text].map Word.code) := spaced
      have whole : Spaced (Item.range low high text).line ([low, high, text].map Word.code) :=
        Item.spaced _
      rw [readRange_codes codes, readRange_codes whole, readIncreasing, readIncreasing,
        codes.hexTokens_congr whole]
    | _ => simp [Item.keyword] at own

end ToUnicodeCMap

namespace CidCMap

theorem lineReader_readSingle : LineReader "cidchar" readSingle Option.toList := by
  refine lineReader_of_single (by decide) ?_ ?_
  · intro line spaced
    rw [readSingle, spaced.hexTokens_nil]
    rfl
  · intro line item own spaced
    cases item with
    | cidChar code cid =>
      have number : trailingNumber? line = trailingNumber? (Item.cidChar code cid).line :=
        @Spaced.trailingNumber?_congr _ _ [] _ _ spaced (Item.spaced _)
      rw [readSingle, readSingle, spaced.hexTokens_congr (Item.spaced _), number]
    | _ => simp [Item.keyword] at own

theorem lineReader_readRange : LineReader "cidrange" readRange Option.toList := by
  refine lineReader_of_single (by decide) ?_ ?_
  · intro line spaced
    rw [readRange, spaced.hexTokens_nil]
    rfl
  · intro line item own spaced
    cases item with
    | cidRange low high start =>
      have number : trailingNumber? line = trailingNumber? (Item.cidRange low high start).line :=
        @Spaced.trailingNumber?_congr _ _ [.code low] _ _ spaced (Item.spaced _)
      rw [readRange, readRange, spaced.hexTokens_congr (Item.spaced _), number]
    | _ => simp [Item.keyword] at own

theorem pairRanges_cons_cons (low high : List Char) (rest : List (List Char)) :
    pairRanges (low :: high :: rest) =
      (pairRanges [low, high]).bind fun first => (pairRanges rest).map (first ++ ·) := by
  simp only [pairRanges]
  cases hexBytes low with
  | error e => rfl
  | ok low =>
    cases hexBytes high with
    | error e => rfl
    | ok high =>
      simp only [bind, Except.bind, pure, Except.pure]
      cases pairRanges rest <;> by_cases sound : low.length == high.length && !low.isEmpty <;>
        simp [sound, Except.map]

theorem pairRanges_words {items : List Item}
    (own : ∀ item ∈ items, item.keyword = "codespacerange") :
    pairRanges ((items.flatMap Item.words).filterMap Word.hex?) =
      gather readSpaces id (items.map Item.line) := by
  induction items with
  | nil => rfl
  | cons item items ih =>
    obtain ⟨first, others⟩ := List.forall_mem_cons.1 own
    cases item with
    | space low high =>
      have alone : hexTokens (Item.space low high).line = [low.chars, high.chars] :=
        (Item.spaced _).hexTokens_eq
      have words : ((Item.space low high :: items).flatMap Item.words).filterMap Word.hex? =
          low.chars :: high.chars :: (items.flatMap Item.words).filterMap Word.hex? := rfl
      rw [words, pairRanges_cons_cons, ih others, List.map_cons, gather_cons, readSpaces, alone,
        Except.map_id]
      rfl
    | _ => simp [Item.keyword] at first

theorem lineReader_readSpaces : LineReader "codespacerange" readSpaces id := by
  intro line items own _ spaced
  rw [readSpaces, spaced.hexTokens_eq, pairRanges_words own, Except.map_id]
  rfl

theorem cids_apply {m m' : CidCMap} (h : m.cids = m'.cids) (e : Entry) :
    (apply m e).cids = (apply m' e).cids := by
  cases e with
  | single code cid => simp only [apply, insert, h]
  | range low span start =>
    refine List.foldl_rel (r := fun m m' : CidCMap => m.cids = m'.cids) h ?_
    intro offset _ m m' same
    simp only [insert, same]

theorem cids_foldl {m m' : CidCMap} (h : m.cids = m'.cids) (list : List Entry) :
    (list.foldl apply m).cids = (list.foldl apply m').cids :=
  List.foldl_rel (r := fun m m' : CidCMap => m.cids = m'.cids) h fun e _ _ _ same =>
    cids_apply same e

def content (m : CidCMap) : List CodespaceRange × (Nat → Option Nat) := (m.codespaces, m.lookup)

theorem content_foldl {m m' : CidCMap} (spaces : m.codespaces = m'.codespaces)
    (cids : m.cids = m'.cids) (list : List Entry) :
    content (list.foldl apply m) = content (list.foldl apply m') := by
  have same : (list.foldl apply m).lookup = (list.foldl apply m').lookup := by
    funext code
    rw [lookup, lookup, cids_foldl cids]
  rw [content, content, codespaces_foldl, codespaces_foldl, spaces, same]

theorem parseText_content (text : List Char) :
    (parseText text).map content =
      (gather readSpaces id (entryLines "codespacerange" text)).bind fun spaces =>
      (gather readSingle Option.toList (entryLines "cidchar" text)).bind fun singles =>
      (gather readRange Option.toList (entryLines "cidrange" text)).map fun ranges =>
        content ((singles ++ ranges).foldl apply { codespaces := spaces }) := by
  rw [parseText_eq_gather]
  cases gather readSpaces id (entryLines "codespacerange" text) with
  | error e => rfl
  | ok spaces =>
    cases gather readSingle Option.toList (entryLines "cidchar" text) with
    | error e => rfl
    | ok singles =>
      cases gather readRange Option.toList (entryLines "cidrange" text) with
      | error e => rfl
      | ok ranges =>
        have spaces' : (header text spaces).codespaces =
            ({ codespaces := spaces } : CidCMap).codespaces := rfl
        exact congrArg Except.ok (content_foldl spaces' rfl _)

end CidCMap

namespace CMap

def Digits.IsCode (hex : Digits) : Prop := ∃ code, SpellsCode hex.chars code

def Digits.IsText (hex : Digits) : Prop :=
  (∃ text, SpellsText hex.chars text) ∨ ∃ byte, SpellsBytes hex.chars [byte]

def Digits.IsBytes (hex : Digits) : Prop := ∃ bytes, SpellsBytes hex.chars bytes

/-- Every code of the entry is a code, and every text a text. -/
def Item.Meant : Item → Prop
  | char code text => code.IsCode ∧ text.IsText
  | range low high text => low.IsCode ∧ high.IsCode ∧ text.IsText
  | array low high texts => low.IsCode ∧ high.IsCode ∧ ∀ text ∈ texts, text.IsText
  | space low high => low.IsBytes ∧ high.IsBytes
  | cidChar code _ => code.IsCode
  | cidRange low high _ => low.IsCode ∧ high.IsCode

theorem Digits.IsCode.read {hex : Digits} (h : hex.IsCode) :
    ∃ code, hexCode hex.chars = .ok code := by
  obtain ⟨code, spelled⟩ := h
  exact ⟨code, hexCode_of_spells spelled⟩

theorem Digits.IsText.read {hex : Digits} (h : hex.IsText) :
    ∃ text, destination hex.chars = .ok text := by
  obtain ⟨text, spelled⟩ | ⟨byte, spelled⟩ := h
  · exact ⟨text, destination_of_spells spelled⟩
  · refine ⟨[Byte.toChar byte], ?_⟩
    rw [destination, hexBytes_of_spells spelled]
    rfl

theorem Digits.IsBytes.read {hex : Digits} (h : hex.IsBytes) :
    ∃ bytes, hexBytes hex.chars = .ok bytes := by
  obtain ⟨bytes, spelled⟩ := h
  exact ⟨bytes, hexBytes_of_spells spelled⟩

variable {ε ι β γ : Type} {read : ι → Except ε β}

theorem gather_ok (out : β → List γ) {list : List ι} (h : ∀ x ∈ list, ∃ b, read x = .ok b) :
    ∃ values, gather read out list = .ok values := by
  obtain ⟨results, done⟩ := exists_mapM_eq_ok_iff.2 h
  refine ⟨results.flatMap out, ?_⟩
  rw [gather, done]
  rfl

end CMap

namespace ToUnicodeCMap

theorem readSingle_line {item : Item} (own : item.keyword = "bfchar") (h : item.Meant) :
    ∃ result, readSingle item.line = .ok result := by
  cases item with
  | char code text =>
    obtain ⟨source, readSource⟩ := h.1.read
    obtain ⟨target, readTarget⟩ := h.2.read
    have tokens : hexTokens (Item.char code text).line = [code.chars, text.chars] :=
      (Item.spaced _).hexTokens_eq
    refine ⟨some (.single source target), ?_⟩
    simp only [readSingle, tokens, readSource, readTarget]
    rfl
  | _ => simp [Item.keyword] at own

theorem readRange_line {item : Item} (own : item.keyword = "bfrange") (h : item.Meant) :
    ∃ result, readRange item.line = .ok result := by
  cases item with
  | range low high text =>
    obtain ⟨first, readFirst⟩ := h.1.read
    obtain ⟨last, readLast⟩ := h.2.1.read
    obtain ⟨target, readTarget⟩ := h.2.2.read
    have codes : Spaced (Item.range low high text).line ([low, high, text].map Word.code) :=
      Item.spaced _
    have tokens : hexTokens (Item.range low high text).line =
        [low.chars, high.chars, text.chars] := codes.hexTokens_codes
    refine ⟨(span? first last).map fun span => .increasing first span target, ?_⟩
    simp only [readRange_codes codes, readIncreasing, tokens, readFirst, readLast, readTarget,
      bind, Except.bind]
    cases span? first last <;> rfl
  | array low high texts =>
    obtain ⟨first, readFirst⟩ := h.1.read
    obtain ⟨last, readLast⟩ := h.2.1.read
    have each : ∀ hex ∈ (texts.map Digits.chars).take (last + 1 - first),
        ∃ text, destination hex = .ok text := by
      intro hex mem
      obtain ⟨text, inside, rfl⟩ := List.mem_map.1 (List.mem_of_mem_take mem)
      exact (h.2.2 text inside).read
    obtain ⟨targets, readTargets⟩ := exists_mapM_eq_ok_iff.2 each
    refine ⟨some (.listed first targets), ?_⟩
    simp only [readRange_array (Item.spaced _), readFirst, readLast, readTargets, bind,
      Except.bind]
    rfl
  | _ => simp [Item.keyword] at own

end ToUnicodeCMap

namespace CidCMap

theorem readSpaces_line {item : Item} (own : item.keyword = "codespacerange") (h : item.Meant) :
    ∃ ranges, readSpaces item.line = .ok ranges := by
  cases item with
  | space low high =>
    obtain ⟨first, readFirst⟩ := h.1.read
    obtain ⟨last, readLast⟩ := h.2.read
    have tokens : hexTokens (Item.space low high).line = [low.chars, high.chars] :=
      (Item.spaced _).hexTokens_eq
    simp only [readSpaces, tokens, pairRanges, readFirst, readLast, bind, Except.bind, pure,
      Except.pure]
    split <;> exact ⟨_, rfl⟩
  | _ => simp [Item.keyword] at own

theorem readSingle_line {item : Item} (own : item.keyword = "cidchar") (h : item.Meant) :
    ∃ result, readSingle item.line = .ok result := by
  cases item with
  | cidChar code cid =>
    obtain ⟨source, readSource⟩ := Digits.IsCode.read h
    have tokens : hexTokens (Item.cidChar code cid).line = [code.chars] :=
      (Item.spaced _).hexTokens_eq
    simp only [readSingle, tokens]
    -- A number that is too large is no identifier, and the entry is left out.
    cases trailingNumber? (Item.cidChar code cid).line with
    | none => exact ⟨none, rfl⟩
    | some cid =>
      refine ⟨some (.single source cid), ?_⟩
      simp only [readSource]
      rfl
  | _ => simp [Item.keyword] at own

theorem readRange_line {item : Item} (own : item.keyword = "cidrange") (h : item.Meant) :
    ∃ result, readRange item.line = .ok result := by
  cases item with
  | cidRange low high start =>
    obtain ⟨first, readFirst⟩ := h.1.read
    obtain ⟨last, readLast⟩ := h.2.read
    have tokens : hexTokens (Item.cidRange low high start).line = [low.chars, high.chars] :=
      (Item.spaced _).hexTokens_eq
    simp only [readRange, tokens]
    cases trailingNumber? (Item.cidRange low high start).line with
    | none => exact ⟨none, rfl⟩
    | some start =>
      refine ⟨(span? first last).map fun span => .range first span start, ?_⟩
      simp only [readFirst, readLast]
      rfl
  | _ => simp [Item.keyword] at own

end CidCMap

namespace CMap

theorem keyword_of_mem_itemsOf {k : String} {blocks : List Block} {item : Item}
    (mem : item ∈ itemsOf k blocks) :
    item.keyword = k ∧ ∃ block ∈ blocks, item ∈ block.items := by
  obtain ⟨block, kept, inside⟩ := List.mem_flatMap.1 mem
  obtain ⟨own, same⟩ := List.mem_filter.1 kept
  exact ⟨(block.own item inside).trans (of_decide_eq_true same), block, own, inside⟩

variable {blocks : List Block} {text : List Char}

theorem Writes.entries_eq (h : Writes Spacing.lined blocks text) :
    ToUnicodeCMap.entries text =
      (gather ToUnicodeCMap.readSingle Option.toList
        ((itemsOf "bfchar" blocks).map Item.line)).bind fun singles =>
      (gather ToUnicodeCMap.readRange Option.toList
        ((itemsOf "bfrange" blocks).map Item.line)).map (singles ++ ·) := by
  rw [ToUnicodeCMap.entries_eq_gather,
    h.gather_entryLines (by decide) ToUnicodeCMap.lineReader_readSingle,
    h.gather_entryLines (by decide) ToUnicodeCMap.lineReader_readRange]

theorem Writes.content_eq (h : Writes Spacing.lined blocks text) :
    (CidCMap.parseText text).map CidCMap.content =
      (gather CidCMap.readSpaces id
        ((itemsOf "codespacerange" blocks).map Item.line)).bind fun spaces =>
      (gather CidCMap.readSingle Option.toList
        ((itemsOf "cidchar" blocks).map Item.line)).bind fun singles =>
      (gather CidCMap.readRange Option.toList
        ((itemsOf "cidrange" blocks).map Item.line)).map fun ranges =>
        ((singles ++ ranges).foldl CidCMap.apply { codespaces := spaces }).content := by
  rw [CidCMap.parseText_content, h.gather_entryLines (by decide) CidCMap.lineReader_readSpaces,
    h.gather_entryLines (by decide) CidCMap.lineReader_readSingle,
    h.gather_entryLines (by decide) CidCMap.lineReader_readRange]

def AllMeant (blocks : List Block) : Prop := ∀ block ∈ blocks, ∀ item ∈ block.items, item.Meant

theorem gather_items_ok {β γ : Type} {k : String} {read : List Char → Except FontFault β}
    (out : β → List γ) (meant : AllMeant blocks)
    (ok : ∀ item : Item, item.keyword = k → item.Meant → ∃ b, read item.line = .ok b) :
    ∃ values, gather read out ((itemsOf k blocks).map Item.line) = .ok values := by
  apply gather_ok
  intro line mem
  obtain ⟨item, listed, rfl⟩ := List.mem_map.1 mem
  obtain ⟨own, block, hb, inside⟩ := keyword_of_mem_itemsOf listed
  exact ok item own (meant block hb item inside)

theorem Writes.entries_ok (h : Writes Spacing.lined blocks text) (meant : AllMeant blocks) :
    ∃ list, ToUnicodeCMap.entries text = .ok list := by
  obtain ⟨singles, first⟩ := gather_items_ok Option.toList meant
    fun _ own => ToUnicodeCMap.readSingle_line own
  obtain ⟨ranges, second⟩ := gather_items_ok Option.toList meant
    fun _ own => ToUnicodeCMap.readRange_line own
  refine ⟨singles ++ ranges, ?_⟩
  rw [h.entries_eq, first, second]
  rfl

theorem Writes.parseText_ok (h : Writes Spacing.lined blocks text) (meant : AllMeant blocks) :
    ∃ m, CidCMap.parseText text = .ok m := by
  obtain ⟨spaces, first⟩ := gather_items_ok id meant fun _ own => CidCMap.readSpaces_line own
  obtain ⟨singles, second⟩ := gather_items_ok Option.toList meant
    fun _ own => CidCMap.readSingle_line own
  obtain ⟨ranges, third⟩ := gather_items_ok Option.toList meant
    fun _ own => CidCMap.readRange_line own
  have content := h.content_eq
  rw [first, second, third] at content
  cases read : CidCMap.parseText text with
  | ok m => exact ⟨m, rfl⟩
  | error e =>
    rw [read] at content
    cases content

/-- Two writings of the same entries, in each of which every entry stands on a line, and on a line
of its own where it is not one of a codespace, are read alike, whatever the blanks are. Where every
entry has a meaning, both are read. -/
theorem parse_eq_of_lined {data data' : Bytes} (h : Writes Spacing.lined blocks (Utf8.decode data))
    (h' : Writes Spacing.lined blocks (Utf8.decode data')) :
    ToUnicodeCMap.parse data = ToUnicodeCMap.parse data' ∧
      (CidCMap.parse data).map CidCMap.content = (CidCMap.parse data').map CidCMap.content ∧
      (AllMeant blocks →
        (∃ m, ToUnicodeCMap.parse data = .ok m) ∧ ∃ m, CidCMap.parse data = .ok m) := by
  refine ⟨?_, ?_, fun meant => ⟨?_, h.parseText_ok meant⟩⟩
  · rw [ToUnicodeCMap.parse, ToUnicodeCMap.parse, h.entries_eq, h'.entries_eq]
  · rw [CidCMap.parse, CidCMap.parse, h.content_eq, h'.content_eq]
  · obtain ⟨list, read⟩ := h.entries_ok meant
    rw [ToUnicodeCMap.parse, read]
    exact ⟨_, rfl⟩

def firstLetters : Block where
  keyword := "bfchar"
  items := [.char (.ofString "01" (by decide)) (.ofString "0041" (by decide)),
    .char (.ofString "02" (by decide)) (.ofString "0042" (by decide))]
  own := by decide

def mixedSpaces : Block where
  keyword := "codespacerange"
  items := [.space (.ofString "00" (by decide)) (.ofString "80" (by decide)),
    .space (.ofString "8140" (by decide)) (.ofString "fefe" (by decide))]
  own := by decide

def sampleCids : Block where
  keyword := "cidrange"
  items := [.cidRange (.ofString "20" (by decide)) (.ofString "7e" (by decide))
    ⟨.ofString "1" (by decide), by decide⟩]
  own := by decide

def sampleBlocks : List Block := [firstLetters, mixedSpaces, sampleCids]

def evenBytes (inside between : String) (blocks : List Block) : Bytes :=
  (evenly inside.toList between.toList blocks).flatMap String.utf8EncodeChar

theorem writes_evenBytes {spacing : String → Spacing} {inside between : String}
    (h : ∀ block ∈ blocks, (spacing block.keyword).Allows inside.toList between.toList)
    (known : ∀ block ∈ blocks, block.keyword ∈ sectionKeywords) :
    Writes spacing blocks (Utf8.decode (evenBytes inside between blocks)) := by
  rw [evenBytes, Utf8.decode_flatMap_utf8EncodeChar]
  exact writes_evenly h known

theorem allMeant_sampleBlocks : AllMeant sampleBlocks := by
  have code (a b : Nat) (lt : ∀ d ∈ [a, b], d < 16) (plain) :
      Digits.IsCode ⟨[a.digitChar, b.digitChar], plain⟩ := by
    refine ⟨_, spells_map_digitChar [a, b] (by simp) lt, ?_⟩
    simp [Nat.ofDigits] at lt ⊢
    omega
  have byte (a b : Nat) (n : UInt8) (lt : ∀ d ∈ [a, b], d < 16)
      (same : Nat.ofDigits 16 [b, a] = n.toNat) : Spells 16 [a.digitChar, b.digitChar] n.toNat :=
    same ▸ spells_map_digitChar [a, b] (by simp) lt
  have zero := byte 0 0 0x00 (by decide) (by decide)
  have letterA : SpellsText "0041".toList ['A'] :=
    .cons zero (.cons (byte 4 1 0x41 (by decide) (by decide)) .nil)
  have letterB : SpellsText "0042".toList ['B'] :=
    .cons zero (.cons (byte 4 2 0x42 (by decide) (by decide)) .nil)
  have low : SpellsBytes "8140".toList [0x81, 0x40] :=
    .cons (byte 8 1 0x81 (by decide) (by decide))
      (.cons (byte 4 0 0x40 (by decide) (by decide)) .nil)
  have high : SpellsBytes "fefe".toList [0xFE, 0xFE] :=
    .cons (byte 15 14 0xFE (by decide) (by decide))
      (.cons (byte 15 14 0xFE (by decide) (by decide)) .nil)
  have top : SpellsBytes "80".toList [0x80] :=
    .cons (byte 8 0 0x80 (by decide) (by decide)) .nil
  have letters : ∀ item ∈ firstLetters.items, item.Meant := by
    refine List.forall_mem_cons.2 ⟨⟨code 0 1 (by decide) _, .inl ⟨_, letterA⟩⟩, ?_⟩
    exact List.forall_mem_singleton.2 ⟨code 0 2 (by decide) _, .inl ⟨_, letterB⟩⟩
  have spaces : ∀ item ∈ mixedSpaces.items, item.Meant := by
    refine List.forall_mem_cons.2 ⟨⟨⟨_, .cons zero .nil⟩, _, top⟩, ?_⟩
    exact List.forall_mem_singleton.2 ⟨⟨_, low⟩, _, high⟩
  have cids : ∀ item ∈ sampleCids.items, item.Meant :=
    List.forall_mem_singleton.2 ⟨code 2 0 (by decide) _, code 7 14 (by decide) _⟩
  exact List.forall_mem_cons.2 ⟨letters, List.forall_mem_cons.2 ⟨spaces,
    List.forall_mem_singleton.2 cids⟩⟩

theorem parse_eq_of_lined_sampleBlocks :
    Writes Spacing.lined sampleBlocks (Utf8.decode (evenBytes " " "\n" sampleBlocks)) ∧
      Writes Spacing.lined sampleBlocks (Utf8.decode (evenBytes "\r\t" " \r\n\n" sampleBlocks)) ∧
      AllMeant sampleBlocks ∧
      ToUnicodeCMap.parse (evenBytes " " "\n" sampleBlocks) =
        ToUnicodeCMap.parse (evenBytes "\r\t" " \r\n\n" sampleBlocks) ∧
      (CidCMap.parse (evenBytes " " "\n" sampleBlocks)).map CidCMap.content =
        (CidCMap.parse (evenBytes "\r\t" " \r\n\n" sampleBlocks)).map CidCMap.content ∧
      (ToUnicodeCMap.parse (evenBytes "\r\t" " \r\n\n" sampleBlocks)).map (·.lookup 2) =
        .ok (some "B") ∧
      ((∃ m, ToUnicodeCMap.parse (evenBytes " " "\n" sampleBlocks) = .ok m) ∧
        ∃ m, CidCMap.parse (evenBytes " " "\n" sampleBlocks) = .ok m) := by
  have known : ∀ block ∈ sampleBlocks, block.keyword ∈ sectionKeywords := by decide
  have allows (k : String) : (Spacing.lined k).Allows " ".toList "\n".toList :=
    Spacing.lined_allows k (by decide +kernel) (by decide +kernel) (by decide +kernel)
      (by decide +kernel)
  have allows' (k : String) : (Spacing.lined k).Allows "\r\t".toList " \r\n\n".toList :=
    Spacing.lined_allows k (by decide +kernel) (by decide +kernel) (by decide +kernel)
      (by decide +kernel)
  have h := writes_evenBytes (fun block _ => allows block.keyword) known
  have h' := writes_evenBytes (fun block _ => allows' block.keyword) known
  obtain ⟨texts, cids, read⟩ := parse_eq_of_lined h h'
  exact ⟨h, h', allMeant_sampleBlocks, texts, cids, by decide +kernel,
    read allMeant_sampleBlocks⟩

/-- Two entries on one line are read as the first, and one that is broken into lines is lost. -/
theorem lookup_ne_of_free :
    Writes (fun _ => Spacing.free) [firstLetters]
        (Utf8.decode (evenBytes " " "\n" [firstLetters])) ∧
      Writes (fun _ => Spacing.free) [firstLetters]
        (Utf8.decode (evenBytes " " " " [firstLetters])) ∧
      Writes (fun _ => Spacing.free) [firstLetters]
        (Utf8.decode (evenBytes "\n" "\n" [firstLetters])) ∧
      (ToUnicodeCMap.parse (evenBytes " " "\n" [firstLetters])).map (·.lookup 2) =
        .ok (some "B") ∧
      (ToUnicodeCMap.parse (evenBytes " " " " [firstLetters])).map (·.lookup 2) = .ok none ∧
      (ToUnicodeCMap.parse (evenBytes "\n" "\n" [firstLetters])).map (·.lookup 2) = .ok none := by
  have known : ∀ block ∈ [firstLetters], block.keyword ∈ sectionKeywords := by decide
  have written {inside between : String} (blank : Blanks inside.toList)
      (blank' : Blanks between.toList) (ne : inside.toList ≠ []) (ne' : between.toList ≠ []) :
      Writes (fun _ => Spacing.free) [firstLetters]
        (Utf8.decode (evenBytes inside between [firstLetters])) :=
    writes_evenBytes (fun _ _ => Spacing.free_allows blank blank' ne ne') known
  refine ⟨written ?_ ?_ ?_ ?_, written ?_ ?_ ?_ ?_, written ?_ ?_ ?_ ?_, ?_, ?_, ?_⟩ <;>
    decide +kernel

end CMap

end PdfContent
