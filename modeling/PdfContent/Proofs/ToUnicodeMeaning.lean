import PdfContent.Font.CMap.ToUnicode
import PdfContent.Proofs.CMapNotation
import PdfContent.Proofs.Traversals

/-!
What a map to text means. Each row of a `bfchar` section gives the text of one code, each row of a
`bfrange` section the texts of a range of codes; the map that is read gives for a code what the
last range with that code says, or else the last single entry for it.
-/

namespace PdfContent.ToUnicodeCMap

open CMap Numeral Text

structure CharMapping where
  code : Nat
  text : List Char

/-- A range counts its last character up from one text, or lists a text for each code. -/
inductive RangeMapping
  | counted (low high : Nat) (text : List Char)
  | listed (low high : Nat) (texts : List (List Char))

def raiseLast? : List Char → Nat → Option (List Char)
  | [], _ => none
  | [c], k => if (c.toNat + k).isValidChar then some [Char.ofNat (c.toNat + k)] else none
  | c :: d :: rest, k => (raiseLast? (d :: rest) k).map (c :: ·)

def CharMapping.textAt? (e : CharMapping) (code : Nat) : Option (List Char) :=
  if e.code = code then some e.text else none

def RangeMapping.textAt? : RangeMapping → Nat → Option (List Char)
  | counted low high text, code =>
    if low ≤ code ∧ code ≤ high ∧ high - low ≤ 65535 then raiseLast? text (code - low) else none
  | listed low high texts, code =>
    if low ≤ code ∧ code ≤ high then texts[code - low]? else none

def CharRow (line : List Char) (e : CharMapping) : Prop :=
  ∃ code text, Tokens line [code, text] ∧ SpellsCode code e.code ∧ SpellsText text e.text

inductive RangeRow : List Char → RangeMapping → Prop
  | counted {line a b t low high text} (tokens : Tokens line [a, b, t]) (first : SpellsCode a low)
      (last : SpellsCode b high) (spelled : SpellsText t text) :
      RangeRow line (.counted low high text)
  | listed {front inner gap a b ts low high texts} (bounds : Tokens front [a, b])
      (first : SpellsCode a low) (last : SpellsCode b high) (tokens : Tokens inner ts)
      (spelled : List.Forall₂ SpellsText ts texts) (own : Gap gap) :
      RangeRow (front ++ '[' :: (inner ++ ']' :: gap)) (.listed low high texts)

def Written (text : List Char) (chars : List CharMapping) (ranges : List RangeMapping) : Prop :=
  ∃ ss, Layout ["bfchar", "bfrange"] text ss ∧ Lists "bfchar" CharRow ss chars ∧
    Lists "bfrange" RangeRow ss ranges

theorem keywords : Keywords ["bfchar", "bfrange"] :=
  ⟨by decide +kernel, by decide +kernel, by decide +kernel⟩

theorem reads_chars :
    Reads CharRow readSingle Option.toList fun e => [.single e.code e.text] where
  plain := by
    intro line e h
    obtain ⟨code, text, tokens, codeSpelled, textSpelled⟩ := h
    exact tokens.plain (.cons codeSpelled.mem (.cons (SpellsBytes.mem textSpelled) .nil)) (by simp)
  blank := by
    intro line h
    refine ⟨none, ?_, rfl⟩
    rw [readSingle, hexTokens_gap h]
    rfl
  row := by
    intro line e h
    obtain ⟨code, text, tokens, codeSpelled, textSpelled⟩ := h
    have found : hexTokens line = [code, text] :=
      tokens.hexTokens_self (.cons codeSpelled.mem (.cons (SpellsBytes.mem textSpelled) .nil))
    refine ⟨some (.single e.code e.text), ?_, rfl⟩
    simp only [readSingle, found, hexCode_of_spells codeSpelled, destination_of_spells textSpelled]
    rfl

theorem allDigits_of_texts {hexes : List (List Char)} {texts : List (List Char)}
    (h : List.Forall₂ SpellsText hexes texts) : AllDigits hexes := by
  induction h with
  | nil => exact .nil
  | cons spelled _ ih => exact .cons (SpellsBytes.mem spelled) ih

def RangeMapping.entry? : RangeMapping → Option Entry
  | counted low high text => (span? low high).map fun span => .increasing low span text
  | listed low high texts => some (.listed low (texts.take (high + 1 - low)))

theorem RangeRow.plain {line : List Char} {r : RangeMapping} (h : RangeRow line r) :
    line ≠ [] ∧ PlainLine line := by
  cases h with
  | counted tokens first last spelled =>
    exact tokens.plain (.cons first.mem (.cons last.mem (.cons (SpellsBytes.mem spelled) .nil)))
      (by simp)
  | @listed front inner gap _ _ _ _ _ _ bounds first last tokens spelled own =>
    have before := bounds.plain (.cons first.mem (.cons last.mem .nil)) (by simp)
    refine ⟨by simp, fun c hc => ?_⟩
    simp only [List.mem_append, List.mem_cons] at hc
    rcases hc with hc | rfl | hc | rfl | hc
    · exact before.2 c hc
    · decide
    · exact tokenChars_not_mem c (tokens.mem (allDigits_of_texts spelled) c hc)
    · decide
    · exact tokenChars_not_mem c (by simp [tokenChars, own c hc])

theorem RangeRow.read {line : List Char} {r : RangeMapping} (h : RangeRow line r) :
    readRange line = .ok r.entry? := by
  cases h with
  | @counted _ a b t low high text tokens first last spelled =>
    have digit : AllDigits [a, b, t] :=
      .cons first.mem (.cons last.mem (.cons (SpellsBytes.mem spelled) .nil))
    have bracket : '[' ∉ line := fun mem => absurd (tokens.mem digit _ mem) (by decide)
    rw [readRange, cut?_mark_eq_none bracket]
    simp only [readIncreasing, tokens.hexTokens_self digit, hexCode_of_spells first,
      hexCode_of_spells last, destination_of_spells spelled, RangeMapping.entry?, bind, Except.bind]
    cases span? low high <;> rfl
  | @listed front inner gap a b ts low high texts bounds first last tokens spelled own =>
    have digit : AllDigits [a, b] := .cons first.mem (.cons last.mem .nil)
    have bracket : '[' ∉ front := fun mem => absurd (bounds.mem digit _ mem) (by decide)
    have inside : beforeLast? ']' (inner ++ ']' :: gap) = some inner :=
      beforeLast?_append inner (own.not_mem (by decide))
    have read : (ts.take (high + 1 - low)).mapM destination = .ok (texts.take (high + 1 - low)) :=
      mapM_eq_ok_iff.2 ((List.forall₂_take _ spelled).imp fun _ _ => destination_of_spells)
    rw [readRange, cut?_mark bracket]
    simp only [readListed, bounds.hexTokens_self digit, inside, hexCode_of_spells first,
      hexCode_of_spells last, tokens.hexTokens_self (allDigits_of_texts spelled),
      RangeMapping.entry?, bind, Except.bind, read]
    rfl

theorem reads_ranges : Reads RangeRow readRange Option.toList fun r => r.entry?.toList where
  plain _ _ h := h.plain
  blank := by
    intro line h
    refine ⟨none, ?_, rfl⟩
    rw [readRange, cut?_mark_eq_none (h.not_mem (by decide))]
    simp only [readIncreasing, hexTokens_gap h]
    rfl
  row _ r h := ⟨r.entry?, h.read, rfl⟩

theorem entries_eq_gather (text : List Char) :
    entries text = (gather readSingle Option.toList (entryLines "bfchar" text)).bind fun singles =>
      (gather readRange Option.toList (entryLines "bfrange" text)).map (singles ++ ·) := by
  rw [entries, gather, gather]
  cases (entryLines "bfchar" text).mapM readSingle with
  | error e => rfl
  | ok singles =>
    cases (entryLines "bfrange" text).mapM readRange with
    | error e => rfl
    | ok ranges => exact congrArg Except.ok (filterMap_id_append singles ranges)

theorem entries_of_written {text : List Char} {chars : List CharMapping}
    {ranges : List RangeMapping} (h : Written text chars ranges) :
    entries text = .ok ((chars.map fun e => .single e.code e.text) ++
      ranges.flatMap fun r => r.entry?.toList) := by
  obtain ⟨ss, layout, charLists, rangeLists⟩ := h
  have clean : ∀ s ∈ ss, WithoutWords s.body := by
    intro s hs
    have keyword := layout.keyword_mem s hs
    simp only [List.mem_cons, List.not_mem_nil, or_false] at keyword
    cases keyword with
    | inl same => exact charLists.withoutWords reads_chars.plain s hs same
    | inr same => exact rangeLists.withoutWords reads_ranges.plain s hs same
  have singles := layout.yields keywords (by simp) clean charLists reads_chars
  have more := layout.yields keywords (by simp) clean rangeLists reads_ranges
  rw [entries_eq_gather, yields_iff.1 singles, yields_iff.1 more, List.map_eq_flatMap]
  rfl

variable {m : ToUnicodeCMap} {code : Nat}

theorem lookup_insert (m : ToUnicodeCMap) (at_ : Nat) (text : List Char) (code : Nat) :
    (m.insert at_ text).lookup code =
      (if at_ = code then some (String.ofList text) else none).or (m.lookup code) := by
  rw [lookup, insert, getElem?_insert_or]
  rfl

theorem advance?_eq_raiseLast? (text : List Char) (k : Nat) :
    advance? text k = raiseLast? text k := by
  induction text with
  | nil => rfl
  | cons c rest ih =>
    cases rest with
    | nil => simp [advance?, raiseLast?]
    | cons d rest =>
      rw [raiseLast?, ← ih]
      simp only [advance?, List.getLast?_cons_cons]
      cases (d :: rest).getLast? with
      | none => rfl
      | some last =>
        simp only
        split <;> simp [List.dropLast]

theorem lookup_insertAdvanced (m : ToUnicodeCMap) (low k : Nat) (text : List Char) (code : Nat) :
    (insertAdvanced low text m k).lookup code =
      (if low + k = code then (raiseLast? text k).map String.ofList else none).or
        (m.lookup code) := by
  rw [insertAdvanced, advance?_eq_raiseLast?]
  cases raiseLast? text k with
  | none => simp
  | some raised => exact lookup_insert m (low + k) raised code

theorem lookup_counted (m : ToUnicodeCMap) (low n : Nat) (text : List Char) (code : Nat) :
    ((List.range n).foldl (insertAdvanced low text) m).lookup code =
      (if low ≤ code ∧ code < low + n then (raiseLast? text (code - low)).map String.ofList
        else none).or (m.lookup code) :=
  lookup_foldl_range (fun m k => lookup_insertAdvanced m low k text) n m code

theorem lookup_listed (m : ToUnicodeCMap) (low : Nat) (texts : List (List Char)) (code : Nat) :
    ((texts.zipIdx low).foldl (fun m entry => m.insert entry.2 entry.1) m).lookup code =
      (if low ≤ code then texts[code - low]?.map String.ofList else none).or
        (m.lookup code) := by
  rw [Option.map_eq_bind]
  exact lookup_foldl_zipIdx (f := fun text _ => some (String.ofList text))
    (fun m text at_ => lookup_insert m at_ text) texts low m code

theorem lookup_ranges (m : ToUnicodeCMap) (r : RangeMapping) (code : Nat) :
    (r.entry?.toList.foldl apply m).lookup code =
      ((r.textAt? code).map String.ofList).or (m.lookup code) := by
  cases r with
  | counted low high text =>
    by_cases usable : low ≤ high ∧ high - low ≤ 65535
    · have same : (low ≤ code ∧ code < low + (high - low + 1)) ↔
          (low ≤ code ∧ code ≤ high ∧ high - low ≤ 65535) := by
        omega
      simp only [RangeMapping.entry?, span?_eq, if_pos usable, Option.map_some, Option.toList_some,
        List.foldl_cons, List.foldl_nil, apply, lookup_counted, same, RangeMapping.textAt?,
        apply_ite (Option.map String.ofList), Option.map_none]
    · have outside : ¬ (low ≤ code ∧ code ≤ high ∧ high - low ≤ 65535) := by omega
      simp only [RangeMapping.entry?, span?_eq, if_neg usable, if_neg outside, Option.map_none,
        Option.toList_none, List.foldl_nil, Option.none_or, RangeMapping.textAt?]
  | listed low high texts =>
    simp only [RangeMapping.entry?, Option.toList_some, List.foldl_cons, List.foldl_nil, apply,
      lookup_listed, RangeMapping.textAt?, List.getElem?_take]
    by_cases first : low ≤ code
    · have same : code - low < high + 1 - low ↔ code ≤ high := by omega
      simp [first, same]
    · simp [first]

/-- A map that lists these entries can be read, and gives for a code the text of the last range
that defines it, or else of the last single entry for it. -/
theorem texts_of_written {data : Bytes} {chars : List CharMapping} {ranges : List RangeMapping}
    (h : Written (Utf8.decode data) chars ranges) :
    ∃ m, parse data = .ok m ∧ ∀ code, m.lookup code =
      ((ranges.reverse.findSome? fun r => r.textAt? code).or
        (chars.reverse.findSome? fun e => e.textAt? code)).map String.ofList := by
  have single : ∀ (m : ToUnicodeCMap) (e : CharMapping) (code : Nat),
      (apply m (.single e.code e.text)).lookup code =
        ((e.textAt? code).map String.ofList).or (m.lookup code) :=
    fun m e code => by
      rw [CharMapping.textAt?, apply_ite (Option.map String.ofList)]
      exact lookup_insert m e.code e.text code
  rw [parse, entries_of_written h]
  refine ⟨_, rfl, fun code => ?_⟩
  simp only
  rw [List.foldl_append, List.foldl_map, List.foldl_flatMap, foldl_eq_findSome? lookup_ranges,
    foldl_eq_findSome? single, Option.map_or, List.map_findSome?, List.map_findSome?]
  have empty : ({} : ToUnicodeCMap).lookup code = none := by simp [lookup]
  rw [empty, Option.or_none]
  rfl

def shortChars : Section := ⟨"bfchar", "\n<02> <0041>\n<09> <d83DDE00>\n".toList⟩

def shortRanges : Section := ⟨"bfrange", "\r\n<01><2> <0061>\n".toList⟩

def shortMap : List Char :=
  "2 ".toList ++ (shortChars.text ++ ("\n".toList ++ (shortRanges.text ++ "\n".toList)))

theorem texts_of_written_shortMap :
    Written (Utf8.decode (shortMap.flatMap String.utf8EncodeChar))
        [⟨2, ['A']⟩, ⟨9, [Char.ofNat 0x1F600]⟩] [.counted 1 2 ['a']] ∧
      ∃ m, parse (shortMap.flatMap String.utf8EncodeChar) = .ok m ∧
        m.lookup 9 = some (String.ofList [Char.ofNat 0x1F600]) ∧ m.lookup 2 = some "b" ∧
        m.lookup 3 = none := by
  have blank : Gap [] := by simp [Gap]
  have space : Gap [' '] := by simp [Gap, gapChars]
  have zero : Spells 16 ['0', '0'] (0x00 : UInt8).toNat :=
    spells_map_digitChar [0, 0] (by decide) (by decide)
  have capital : SpellsText "0041".toList ['A'] :=
    .cons zero (.cons (spells_map_digitChar [4, 1] (by decide) (by decide)) .nil)
  have small : SpellsText "0061".toList ['a'] :=
    .cons zero (.cons (spells_map_digitChar [6, 1] (by decide) (by decide)) .nil)
  have high : Spells 16 ['d', '8'] (0xD8 : UInt8).toNat :=
    spells_map_digitChar [13, 8] (by decide) (by decide)
  have low : Spells 16 ['D', 'E'] (0xDE : UInt8).toNat :=
    ⟨by decide, [13, 14], .cons ⟨by decide, .inr rfl⟩ (.cons ⟨by decide, .inr rfl⟩ .nil), rfl⟩
  have middle : Spells 16 ['3', 'D'] (0x3D : UInt8).toNat :=
    ⟨by decide, [3, 13], .cons ⟨by decide, .inl rfl⟩ (.cons ⟨by decide, .inr rfl⟩ .nil), rfl⟩
  have smile : SpellsText "d83DDE00".toList [Char.ofNat 0x1F600] :=
    .cons high (.cons middle (.cons low (.cons zero .nil)))
  have one : SpellsCode "01".toList 1 :=
    ⟨spells_map_digitChar [0, 1] (by decide) (by decide), by decide⟩
  have two : SpellsCode "02".toList 2 :=
    ⟨spells_map_digitChar [0, 2] (by decide) (by decide), by decide⟩
  have bareTwo : SpellsCode "2".toList 2 :=
    ⟨spells_map_digitChar [2] (by decide) (by decide), by decide⟩
  have nine : SpellsCode "09".toList 9 :=
    ⟨spells_map_digitChar [0, 9] (by decide) (by decide), by decide⟩
  have firstRow : CharRow "<02> <0041>".toList ⟨2, ['A']⟩ :=
    ⟨"02".toList, "0041".toList, @Tokens.cons [] "02".toList " <0041>".toList _ blank
      (@Tokens.cons [' '] "0041".toList [] [] space (.nil blank)), two, capital⟩
  have secondRow : CharRow "<09> <d83DDE00>".toList ⟨9, [Char.ofNat 0x1F600]⟩ :=
    ⟨"09".toList, "d83DDE00".toList, @Tokens.cons [] "09".toList " <d83DDE00>".toList _ blank
      (@Tokens.cons [' '] "d83DDE00".toList [] [] space (.nil blank)), nine, smile⟩
  have rangeRow : RangeRow "<01><2> <0061>".toList (.counted 1 2 ['a']) :=
    .counted (@Tokens.cons [] "01".toList "<2> <0061>".toList _ blank
      (@Tokens.cons [] "2".toList " <0061>".toList _ blank
        (@Tokens.cons [' '] "0061".toList [] [] space (.nil blank)))) one bareTwo small
  have charRows : Rows CharRow shortChars.body [⟨2, ['A']⟩, ⟨9, [Char.ofNat 0x1F600]⟩] :=
    @Rows.next _ _ [] ['\n'] "<02> <0041>\n<09> <d83DDE00>\n".toList [] _ (.blank blank)
      (by decide) (@Rows.next _ _ "<02> <0041>".toList ['\n'] "<09> <d83DDE00>\n".toList _ _
        (.row firstRow) (by decide) (@Rows.next _ _ "<09> <d83DDE00>".toList ['\n'] [] _ _
          (.row secondRow) (by decide) (.last (.blank blank))))
  have rangeRows : Rows RangeRow shortRanges.body [.counted 1 2 ['a']] :=
    @Rows.next _ _ [] ['\r', '\n'] "<01><2> <0061>\n".toList [] _ (.blank blank) (by decide)
      (@Rows.next _ _ "<01><2> <0061>".toList ['\n'] [] _ _ (.row rangeRow) (by decide)
        (.last (.blank blank)))
  have layout : Layout ["bfchar", "bfrange"] shortMap [shortChars, shortRanges] :=
    .next (by decide +kernel) (by decide) (.next (by decide +kernel) (by decide)
      (.plain (by decide +kernel)))
  have written : Written shortMap [⟨2, ['A']⟩, ⟨9, [Char.ofNat 0x1F600]⟩] [.counted 1 2 ['a']] :=
    ⟨_, layout, ⟨[[⟨2, ['A']⟩, ⟨9, [Char.ofNat 0x1F600]⟩]], .cons charRows .nil, rfl⟩,
      ⟨[[.counted 1 2 ['a']]], .cons rangeRows .nil, rfl⟩⟩
  rw [← Utf8.decode_flatMap_utf8EncodeChar shortMap] at written
  obtain ⟨m, read, found⟩ := texts_of_written written
  exact ⟨written, m, read, found 9, found 2, found 3⟩

end PdfContent.ToUnicodeCMap
