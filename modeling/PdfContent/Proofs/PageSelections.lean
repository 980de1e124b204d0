import Mathlib.Data.List.Sort
import PdfContent.CommandLine.Commands
import PdfContent.Proofs.Numerals
import PdfContent.Proofs.TextPieces
import PdfContent.Proofs.Traversals

/-!
Page selections as sets of pages. A selection is read exactly when one of its parts is not blank and
every such part names a page of the document, or two with a hyphen between them in order. The pages
then come out once each and in order, so neither the order of the parts nor how often they stand
there matters.
-/

namespace PdfContent

namespace PageSelection

open Text Numeral

variable {count i next p : Nat} {text : String} {cs part : List Char} {r : PageRange}

/-- A piece of the selection between commas, without the blanks around it. -/
def IsPart (text : String) (part : List Char) : Prop :=
  part ≠ [] ∧ ∃ piece ∈ text.toList.splitOn ',', Trims piece part

def IsPage (count : Nat) (cs : List Char) (p : Nat) : Prop :=
  ∃ digits, Trims cs digits ∧ SpellsSigned 10 digits p ∧ p ≤ greatest64 ∧ 1 ≤ p ∧ p ≤ count

inductive Names (count : Nat) (part : List Char) : PageRange → Prop
  | page {p : Nat} (h : IsPage count part p) : Names count part ⟨p, p⟩
  | range {a b : Nat} {first last : List Char} (split : part = first ++ '-' :: last)
      (start : IsPage count first a) (finish : IsPage count last b) (le : a ≤ b) :
      Names count part ⟨a, b⟩

/-- Some part of the selection names the page, counted from one, or a range with it. -/
def Selects (text : String) (count p : Nat) : Prop :=
  ∃ part r, IsPart text part ∧ Names count part r ∧ r.first ≤ p ∧ p ≤ r.last

theorem mem_parts : part ∈ parts text ↔ IsPart text part := by
  rw [parts, pieces_eq_splitOn, List.mem_filter, List.mem_map, IsPart, and_comm]
  simp only [trims_iff, Bool.not_eq_true', List.isEmpty_eq_false_iff]

theorem readPage_eq_ok_iff : readPage count cs = .ok p ↔ IsPage count cs p := by
  constructor
  · intro h
    cases read : parse? 10 greatest64 (trimChars cs) with
    | none => simp [readPage, read] at h
    | some page =>
      simp only [readPage, read, beq_iff_eq] at h
      split_ifs at h with zero beyond
      obtain rfl := Except.ok.inj h
      obtain ⟨spelled, le⟩ := (parse?_eq_some_iff (by decide)).1 read
      exact ⟨_, trims_trimChars cs, spelled, le, Nat.pos_of_ne_zero zero, Nat.le_of_not_lt beyond⟩
  · rintro ⟨digits, trims, spelled, le, pos, last⟩
    have read := (parse?_eq_some_iff (by decide)).2 ⟨spelled, le⟩
    have nonzero : p ≠ 0 := Nat.ne_of_gt pos
    simp only [readPage, trims.eq, read, beq_iff_eq, if_neg nonzero, if_neg (Nat.not_lt.2 last)]

theorem IsPage.not_mem (h : IsPage count cs p) : '-' ∉ cs := by
  obtain ⟨digits, ⟨a, b, rfl, ha, hb, -⟩, spelled, -⟩ := h
  have blank : isBlank '-' = false := by decide +kernel
  have figure : '-' ∉ '+' :: digitChars := by decide
  intro mem
  rcases List.mem_append.1 mem with mem | mem
  · rcases List.mem_append.1 mem with mem | mem
    · simp [ha _ mem] at blank
    · exact figure (List.mem_cons.2 (spelled.mem (by decide) _ mem))
  · simp [hb _ mem] at blank

theorem readPart_of_cut {first last : List Char} (cut : cut? ['-'] part = some (first, last)) :
    readPart count part = .ok r ↔
      readPage count first = .ok r.first ∧ readPage count last = .ok r.last ∧ r.first ≤ r.last := by
  simp only [readPart, cut]
  cases readPage count first with
  | error fault => exact ⟨nofun, nofun⟩
  | ok a =>
    cases readPage count last with
    | error fault => exact ⟨nofun, nofun⟩
    | ok b =>
      simp only [bind, Except.bind, pure, Except.pure, Except.ok.injEq]
      by_cases descending : a > b
      · rw [if_pos descending]
        refine ⟨nofun, ?_⟩
        rintro ⟨rfl, rfl, le⟩
        exact absurd le (Nat.not_le.2 descending)
      · rw [if_neg descending]
        constructor
        · intro h
          obtain rfl := Except.ok.inj h
          exact ⟨rfl, rfl, Nat.le_of_not_lt descending⟩
        · rintro ⟨rfl, rfl, -⟩
          rfl

theorem readPart_eq_ok_iff : readPart count part = .ok r ↔ Names count part r := by
  by_cases hyphen : '-' ∈ part
  · obtain ⟨first, last, rfl, before⟩ := List.eq_append_cons_of_mem hyphen
    have cut := cut?_mark before last
    rw [readPart_of_cut cut, readPage_eq_ok_iff, readPage_eq_ok_iff]
    constructor
    · rintro ⟨start, finish, le⟩
      exact .range rfl start finish le
    · intro named
      cases named with
      | page h => exact absurd hyphen h.not_mem
      | range split start finish le =>
        -- No number holds a hyphen, so the part is cut where its range says.
        rw [split, cut?_mark start.not_mem] at cut
        obtain ⟨rfl, rfl⟩ := Prod.mk.inj (Option.some.inj cut)
        exact ⟨start, finish, le⟩
  · have whole := cut?_mark_eq_none hyphen
    simp only [readPart, whole]
    constructor
    · intro h
      obtain ⟨page, read, rfl⟩ := map_eq_ok h
      exact .page (readPage_eq_ok_iff.1 read)
    · intro named
      cases named with
      | page h => rw [readPage_eq_ok_iff.2 h]; rfl
      | range split => exact absurd (split ▸ by simp) hyphen

theorem mem_indicesFrom {ranges : List PageRange}
    (sorted : ranges.Pairwise fun a b => a.first ≤ b.first) :
    i ∈ indicesFrom next ranges ↔ next ≤ i ∧ ∃ r ∈ ranges, r.first ≤ i + 1 ∧ i + 1 ≤ r.last := by
  induction ranges generalizing next with
  | nil => simp [indicesFrom]
  | cons r rest ih =>
    obtain ⟨least, others⟩ := List.pairwise_cons.1 sorted
    rw [indicesFrom, List.mem_append, List.mem_range'_1, ih others, List.exists_mem_cons_iff]
    constructor
    · rintro (own | ⟨reached, later⟩)
      · exact ⟨by omega, .inl (by omega)⟩
      · exact ⟨by omega, .inr later⟩
    · rintro ⟨reached, own | ⟨r', mem, start, finish⟩⟩
      · exact .inl (by omega)
      · -- What a later range shares with this one, this one has given.
        have := least r' mem
        by_cases given : i < r.last
        · exact .inl (by omega)
        · exact .inr ⟨by omega, r', mem, start, finish⟩

theorem le_of_mem_indicesFrom {ranges : List PageRange} (h : i ∈ indicesFrom next ranges) :
    next ≤ i := by
  induction ranges generalizing next with
  | nil => simp [indicesFrom] at h
  | cons r rest ih =>
    rw [indicesFrom, List.mem_append, List.mem_range'_1] at h
    rcases h with own | later
    · omega
    · have := ih later
      omega

theorem pairwise_indicesFrom (next : Nat) (ranges : List PageRange) :
    (indicesFrom next ranges).Pairwise (· < ·) := by
  induction ranges generalizing next with
  | nil => exact .nil
  | cons r rest ih =>
    rw [indicesFrom, List.pairwise_append]
    refine ⟨List.pairwise_lt_range' .., ih _, ?_⟩
    intro i own j later
    rw [List.mem_range'_1] at own
    have := le_of_mem_indicesFrom later
    omega

theorem parse_eq_ok_iff {indices : List Nat} :
    parse text count = .ok indices ↔
      ∃ ranges, (parts text).mapM (readPart count) = .ok ranges ∧ ranges ≠ [] ∧
        indicesFrom 0 (ranges.mergeSort fun a b => a.first ≤ b.first) = indices := by
  unfold parse
  cases (parts text).mapM (readPart count) with
  | error fault => exact ⟨nofun, nofun⟩
  | ok ranges =>
    simp only [bind, Except.bind, pure, Except.pure, Except.ok.injEq, exists_eq_left']
    cases ranges with
    | nil => exact ⟨nofun, fun h => absurd rfl h.1⟩
    | cons r rest => simp

theorem parse_succeeds_iff :
    (∃ indices, parse text count = .ok indices) ↔
      (∃ part, IsPart text part) ∧ ∀ part, IsPart text part → ∃ r, Names count part r := by
  simp only [← mem_parts, ← readPart_eq_ok_iff]
  rw [← exists_mapM_eq_ok_iff]
  constructor
  · rintro ⟨indices, h⟩
    obtain ⟨ranges, read, ne, -⟩ := parse_eq_ok_iff.1 h
    obtain ⟨r, mem⟩ := List.exists_mem_of_ne_nil ranges ne
    obtain ⟨part, own, -⟩ := (mem_of_mapM_eq_ok read).1 mem
    exact ⟨⟨part, own⟩, ranges, read⟩
  · rintro ⟨⟨part, own⟩, ranges, read⟩
    obtain ⟨r, named⟩ := exists_mapM_eq_ok_iff.1 ⟨ranges, read⟩ part own
    have mem : r ∈ ranges := (mem_of_mapM_eq_ok read).2 ⟨part, own, named⟩
    exact ⟨_, parse_eq_ok_iff.2 ⟨ranges, read, List.ne_nil_of_mem mem, rfl⟩⟩

theorem mem_of_parse {indices : List Nat} (h : parse text count = .ok indices) :
    i ∈ indices ↔ Selects text count (i + 1) := by
  obtain ⟨ranges, read, -, rfl⟩ := parse_eq_ok_iff.1 h
  have sorted : (ranges.mergeSort fun a b => a.first ≤ b.first).Pairwise fun a b =>
      a.first ≤ b.first := by
    have trans (a b c : PageRange) := fun x y => @Nat.le_trans a.first b.first c.first x y
    have total (a b : PageRange) := Nat.le_total a.first b.first
    simpa using @List.pairwise_mergeSort _ (fun a b : PageRange => a.first ≤ b.first)
      (by simpa using trans) (by simpa using total) ranges
  rw [mem_indicesFrom sorted]
  simp only [List.mem_mergeSort, mem_of_mapM_eq_ok read, mem_parts, readPart_eq_ok_iff, Selects]
  constructor
  · rintro ⟨-, r, ⟨part, own, named⟩, within⟩
    exact ⟨part, r, own, named, within⟩
  · rintro ⟨part, r, own, named, within⟩
    exact ⟨Nat.zero_le i, r, ⟨part, own, named⟩, within⟩

theorem Selects.pos (h : Selects text count p) : 1 ≤ p := by
  obtain ⟨part, r, -, named, le, -⟩ := h
  cases named with
  | page h =>
    obtain ⟨-, -, -, -, first, -⟩ := h
    exact first.trans le
  | range split start =>
    obtain ⟨-, -, -, -, first, -⟩ := start
    exact first.trans le

theorem Selects.le (h : Selects text count p) : p ≤ count := by
  obtain ⟨part, r, -, named, -, le⟩ := h
  cases named with
  | page h =>
    obtain ⟨-, -, -, -, -, last⟩ := h
    exact le.trans last
  | range split start finish =>
    obtain ⟨-, -, -, -, -, last⟩ := finish
    exact le.trans last

theorem pairwise_parse {indices : List Nat} (h : parse text count = .ok indices) :
    indices.Pairwise (· < ·) := by
  obtain ⟨ranges, -, -, rfl⟩ := parse_eq_ok_iff.1 h
  exact pairwise_indicesFrom 0 _

theorem parse_congr {other : String} (same : ∀ part, IsPart other part ↔ IsPart text part)
    {indices : List Nat} (h : parse text count = .ok indices) :
    parse other count = .ok indices := by
  have succeeds := parse_succeeds_iff.1 ⟨indices, h⟩
  simp only [← same] at succeeds
  obtain ⟨again, h'⟩ := parse_succeeds_iff.2 succeeds
  have members : ∀ i, i ∈ again ↔ i ∈ indices := by
    intro i
    simp only [mem_of_parse h', mem_of_parse h, Selects, same]
  rw [h', (pairwise_parse h').eq_of_mem_iff (pairwise_parse h) members]

open CommandLine

theorem getElem?_numberedPages (doc : Document) (i : Nat) :
    (numberedPages doc)[i]? = doc.pages[i]?.map fun id => ⟨i + 1, id⟩ := by
  rw [numberedPages, List.getElem?_map, List.getElem?_zipIdx, Option.map_map]
  cases doc.pages[i]? with
  | none => rfl
  | some id => simp [Nat.add_comm]

theorem length_numberedPages (doc : Document) :
    (numberedPages doc).length = doc.pages.length := by
  rw [numberedPages, List.length_map, List.length_zipIdx]

theorem selectedPages_of_parse {doc : Document} {indices : List Nat}
    (h : parse text doc.pages.length = .ok indices) :
    ∃ pages, selectedPages doc (some text) = .ok pages ∧
      pages.Pairwise (fun a b => a.number < b.number) ∧
      ∀ page, page ∈ pages ↔ Selects text doc.pages.length page.number ∧
        doc.pages[page.number - 1]? = some page.id := by
  refine ⟨indices.filterMap fun i => (numberedPages doc)[i]?, ?_, ?_, ?_⟩
  · rw [selectedPages, length_numberedPages, h]
    rfl
  · rw [List.pairwise_filterMap]
    refine (pairwise_parse h).imp fun {i j} lt a ha b hb => ?_
    obtain ⟨_, -, rfl⟩ := Option.map_eq_some_iff.1 (getElem?_numberedPages doc i ▸ ha)
    obtain ⟨_, -, rfl⟩ := Option.map_eq_some_iff.1 (getElem?_numberedPages doc j ▸ hb)
    exact Nat.succ_lt_succ lt
  · intro page
    simp only [List.mem_filterMap, mem_of_parse h, getElem?_numberedPages, Option.map_eq_some_iff]
    constructor
    · rintro ⟨i, selected, id, found, rfl⟩
      exact ⟨selected, found⟩
    · rintro ⟨selected, found⟩
      have counted : page.number - 1 + 1 = page.number := Nat.sub_add_cancel selected.pos
      exact ⟨page.number - 1, counted.symm ▸ selected, page.id, found, by rw [counted]⟩

/-- A selection is read just when some part of it is not blank and all such parts name pages of the
document. Its pages are then in order and each there once, whatever the order of the parts and
however often they stand there. -/
theorem parse_denotes (text : String) (count : Nat) :
    ((∃ indices, parse text count = .ok indices) ↔
      (∃ part, IsPart text part) ∧ ∀ part, IsPart text part → ∃ r, Names count part r) ∧
    ∀ indices, parse text count = .ok indices →
      indices.Pairwise (· < ·) ∧ (∀ i ∈ indices, i < count) ∧
      (∀ i, i ∈ indices ↔ Selects text count (i + 1)) ∧
      (∀ other, (∀ part, IsPart other part ↔ IsPart text part) →
        parse other count = .ok indices) ∧
      ∀ doc : Document, doc.pages.length = count →
        ∃ pages, selectedPages doc (some text) = .ok pages ∧
          pages.Pairwise (fun a b => a.number < b.number) ∧
          ∀ page, page ∈ pages ↔ Selects text count page.number ∧
            doc.pages[page.number - 1]? = some page.id := by
  refine ⟨parse_succeeds_iff, fun indices h => ⟨pairwise_parse h, ?_, ?_, ?_, ?_⟩⟩
  · intro i mem
    exact ((mem_of_parse h).1 mem).le
  · exact fun i => mem_of_parse h
  · exact fun other same => parse_congr same h
  · rintro doc rfl
    exact selectedPages_of_parse h

def twoPages : Document where
  objects := [
    (⟨1, 0⟩, .dictionary [(Bytes.ofUtf8 "Pages", .reference ⟨2, 0⟩)]),
    (⟨2, 0⟩, .dictionary [(Bytes.ofUtf8 "Kids", .array [.reference ⟨4, 0⟩, .reference ⟨3, 0⟩])]),
    (⟨3, 0⟩, .dictionary [(Bytes.ofUtf8 "Type", .name (Bytes.ofUtf8 "Page"))]),
    (⟨4, 0⟩, .dictionary [(Bytes.ofUtf8 "Type", .name (Bytes.ofUtf8 "Page"))])]
  trailer := [(Bytes.ofUtf8 "Root", .reference ⟨1, 0⟩)]
  pages := [⟨4, 0⟩, ⟨3, 0⟩]

theorem parse_denotes_overlappingParts :
    parse "+1-2,2" 2 = .ok [0, 1] ∧ parse " 2 , +1-2,, 2" 2 = .ok [0, 1] ∧
      ∃ pages, selectedPages twoPages (some "+1-2,2") = .ok pages ∧
        pages.Pairwise (fun a b => a.number < b.number) ∧
        ∀ page, page ∈ pages ↔ Selects "+1-2,2" 2 page.number ∧
          twoPages.pages[page.number - 1]? = some page.id := by
  have dense : parts "+1-2,2" = [['+', '1', '-', '2'], ['2']] := by decide +kernel
  have spaced : parts " 2 , +1-2,, 2" = [['2'], ['+', '1', '-', '2'], ['2']] := by decide +kernel
  have read : parse "+1-2,2" 2 = .ok [0, 1] := by
    have ranges : (parts "+1-2,2").mapM (readPart 2) = .ok [⟨1, 2⟩, ⟨2, 2⟩] := by decide +kernel
    refine parse_eq_ok_iff.2 ⟨_, ranges, List.cons_ne_nil _ _, ?_⟩
    rw [List.mergeSort_of_pairwise (by decide)]
    rfl
  have same part : IsPart " 2 , +1-2,, 2" part ↔ IsPart "+1-2,2" part := by
    simp only [← mem_parts, spaced, dense, List.mem_cons, List.not_mem_nil, or_false]
    tauto
  obtain ⟨-, -, -, reordered, reported⟩ := (parse_denotes "+1-2,2" 2).2 _ read
  exact ⟨read, reordered _ same, reported twoPages rfl⟩

end PageSelection

end PdfContent
