import PdfContent.Proofs.CMapWords

/-!
Blanks in the sections of character maps. A writing of a section puts a run of blanks between any
two words. As long as no entry is broken into two lines, and no line has more entries than are
looked for, a section is read as its entries one by one, whichever blanks were chosen.
-/

namespace PdfContent.CMap

open Numeral Text

variable {β γ : Type}

/-- Which runs of blanks may stand between the words of an entry, between two entries, and before
the first and after the last entry of a section. -/
structure Spacing where
  inside : List Char → Prop
  between : List Char → Prop
  around : List Char → Prop

inductive Joined (inside : List Char → Prop) : List Word → List Char → Prop
  | last {w} : Joined inside [w] w.text
  | next {w ws gap rest} (blank : Blanks gap) (own : inside gap) (tail : Joined inside ws rest) :
      Joined inside (w :: ws) (w.text ++ (gap ++ rest))

inductive Spread (spacing : Spacing) : List Item → List Char → Prop
  | nil : Spread spacing [] []
  | cons {item items core gap rest} (own : Joined spacing.inside item.words core)
      (blank : Blanks gap) (last : items = [] → spacing.around gap)
      (next : items ≠ [] → spacing.between gap) (tail : Spread spacing items rest) :
      Spread spacing (item :: items) (core ++ (gap ++ rest))

def Body (spacing : Spacing) (items : List Item) (body : List Char) : Prop :=
  ∃ lead rest, body = lead ++ rest ∧ Blanks lead ∧ spacing.around lead ∧ Spread spacing items rest

namespace Spacing

def free : Spacing := ⟨(· ≠ []), (· ≠ []), (· ≠ [])⟩

/-- Every entry on a line, and on a line of its own unless it is one of a codespace. -/
def lined (keyword : String) : Spacing where
  inside gap := '\n' ∉ gap
  between gap := keyword = "codespacerange" ∨ '\n' ∈ gap
  around _ := True

end Spacing

theorem Joined.spaced {words : List Word} {core : List Char}
    (h : Joined (fun gap => '\n' ∉ gap) words core) : Spaced core words := by
  induction h with
  | @last w => exact .word w
  | @next w _ gap rest blank own _ ih => exact (Spaced.word w).append (ih.after (blank.inline own))

def Fit (keyword : String) (items : List Item) : Prop :=
  keyword = "codespacerange" ∨ items.length ≤ 1

/-- A reader of lines that finds the entries on a line, as it finds each of them alone. -/
def LineReader (keyword : String) (read : List Char → Except FontFault β) (out : β → List γ) :
    Prop :=
  ∀ line items, (∀ item ∈ items, item.keyword = keyword) → Fit keyword items →
    Spaced line (items.flatMap Item.words) →
      (read line).map out = gather read out (items.map Item.line)

/-- Behind a line that has begun with some entries, the text goes on with others. -/
def Continues (read : List Char → Except FontFault β) (out : β → List γ) (begun : List Item)
    (text : List Char) (items : List Item) : Prop :=
  ∀ front, Spaced front (begun.flatMap Item.words) →
    gather read out (lines (front ++ text)) = gather read out ((begun ++ items).map Item.line)

section Lines

variable {k : String} {read : List Char → Except FontFault β} {out : β → List γ}
  {begun items : List Item} {text gap core : List Char}

theorem Continues.blank {c : Char} (h : Continues read out begun text items)
    (own : c ∈ lineBlanks) : Continues read out begun (c :: text) items := by
  intro front spaced
  have more : Spaced (front ++ [c]) (begun.flatMap Item.words) := by
    have behind : Spaced [c] [] := .nil fun d hd => List.mem_singleton.1 hd ▸ own
    simpa using spaced.append behind
  rw [List.append_cons]
  exact h _ more

theorem Continues.lineEnd (reads : LineReader k read out) (own : ∀ item ∈ begun, item.keyword = k)
    (fit : Fit k begun) (h : Continues read out [] text items) :
    Continues read out begun ('\n' :: text) items := by
  intro front spaced
  have line := reads (dropReturn front) begun own fit spaced.dropReturn
  have rest := h [] .empty
  rw [List.nil_append, List.nil_append] at rest
  rw [lines_append_feed spaced.feed, gather_cons, line, rest, List.map_append, gather_append]

theorem Continues.finish (reads : LineReader k read out) (own : ∀ item ∈ begun, item.keyword = k)
    (fit : Fit k begun) : Continues read out begun [] [] := by
  intro front spaced
  have line := reads front begun own fit spaced
  rw [List.append_nil, List.append_nil, ← line]
  by_cases empty : front = []
  · -- What is empty is no line, but would be read as nothing.
    subst empty
    have nothing := reads [] [] (by simp) (.inr (Nat.zero_le 1)) .empty
    exact nothing.symm
  · rw [lines_of_not_mem spaced.feed empty, gather_singleton]

theorem Continues.skip (reads : LineReader k read out) (own : ∀ item ∈ begun, item.keyword = k)
    (fit : Fit k begun) (blank : Blanks gap) (fresh : Continues read out [] text items)
    (h : '\n' ∉ gap → Continues read out begun text items) :
    Continues read out begun (gap ++ text) items := by
  induction gap generalizing begun with
  | nil => exact h List.not_mem_nil
  | cons c gap ih =>
    obtain ⟨first, others⟩ := List.forall_mem_cons.1 blank
    rcases List.mem_cons.1 first with rfl | inline
    · have none : ∀ item ∈ ([] : List Item), item.keyword = k := by simp
      exact .lineEnd reads own fit (ih none (.inr (Nat.zero_le 1)) others fun _ => fresh)
    · have other : '\n' ≠ c := fun same => lineBlanks_not_mem c inline (same ▸ List.mem_cons_self)
      refine (ih own fit others fun without => h ?_).blank inline
      exact List.not_mem_cons_of_ne_of_not_mem other without

theorem Continues.item {item : Item} (spaced : Spaced core item.words)
    (h : Continues read out (begun ++ [item]) text items) :
    Continues read out begun (core ++ text) (item :: items) := by
  intro front before
  have more : Spaced (front ++ core) ((begun ++ [item]).flatMap Item.words) := by
    simpa using before.append spaced
  rw [← List.append_assoc, List.append_cons]
  exact h _ more

theorem Spread.continues (reads : LineReader k read out)
    (h : Spread (Spacing.lined k) items text) (own : ∀ item ∈ begun ++ items, item.keyword = k)
    (fit : Fit k begun) (free : k = "codespacerange" ∨ begun = [] ∨ items = []) :
    Continues read out begun text items := by
  induction h generalizing begun with
  | nil => exact .finish reads (by simpa using own) fit
  | @cons item items core gap rest joined blank _ next tail ih =>
    have grown : Fit k (begun ++ [item]) := by
      obtain shared | rfl | none := free
      · exact .inl shared
      · exact .inr (Nat.le_refl 1)
      · exact absurd none (List.cons_ne_nil _ _)
    have all : ∀ i ∈ (begun ++ [item]) ++ items, i.keyword = k := by simpa using own
    have fresh : Continues read out [] rest items := by
      refine ih (fun i hi => all i ?_) (.inr (Nat.zero_le 1)) (.inr (.inl rfl))
      exact List.mem_append_right _ hi
    refine .item joined.spaced (.skip reads ?_ grown blank fresh fun without => ih all grown ?_)
    · exact fun i hi => all i (List.mem_append_left _ hi)
    · by_cases last : items = []
      · exact .inr (.inr last)
      · exact .inl ((next last).resolve_right without)

theorem Body.gather_lines (reads : LineReader k read out)
    (h : Body (Spacing.lined k) items text) (own : ∀ item ∈ items, item.keyword = k) :
    gather read out (lines text) = gather read out (items.map Item.line) := by
  obtain ⟨lead, rest, rfl, blank, -, spread⟩ := h
  have fit : Fit k [] := .inr (Nat.zero_le 1)
  have fresh : Continues read out [] rest items := spread.continues reads own fit (.inr (.inl rfl))
  exact Continues.skip reads (by simp) fit blank fresh (fun _ => fresh) [] .empty

end Lines

def sectionKeywords : List String :=
  ["bfchar", "bfrange", "codespacerange", "cidchar", "cidrange"]

theorem keywords_sectionKeywords : Keywords sectionKeywords :=
  ⟨by decide +kernel, by decide +kernel, by decide +kernel⟩

structure Block where
  keyword : String
  items : List Item
  own : ∀ item ∈ items, item.keyword = keyword

def Block.WrittenAs (spacing : String → Spacing) (block : Block) (s : Section) : Prop :=
  s.keyword = block.keyword ∧ Body (spacing block.keyword) block.items s.body

def Writes (spacing : String → Spacing) (blocks : List Block) (text : List Char) : Prop :=
  ∃ ss, Layout sectionKeywords text ss ∧ List.Forall₂ (Block.WrittenAs spacing) blocks ss

def itemsOf (keyword : String) (blocks : List Block) : List Item :=
  (blocks.filter (·.keyword = keyword)).flatMap Block.items

def bodyChars : List Char := '\n' :: (lineBlanks ++ Word.chars)

section Bodies

variable {inside : List Char → Prop} {spacing : Spacing} {words : List Word} {items : List Item}
  {text gap : List Char} {c : Char}

theorem Blanks.mem_bodyChars (h : Blanks gap) (mem : c ∈ gap) : c ∈ bodyChars := by
  rcases List.mem_cons.1 (h c mem) with rfl | inline
  · exact List.mem_cons_self
  · exact List.mem_cons_of_mem _ (List.mem_append_left _ inline)

theorem Joined.mem_bodyChars (h : Joined inside words text) (mem : c ∈ text) : c ∈ bodyChars := by
  have word {w : Word} (own : c ∈ w.text) : c ∈ bodyChars :=
    List.mem_cons_of_mem _ (List.mem_append_right _ (Word.mem_chars own))
  induction h with
  | last => exact word mem
  | next blank _ _ ih =>
    simp only [List.mem_append] at mem
    rcases mem with own | between | rest
    · exact word own
    · exact blank.mem_bodyChars between
    · exact ih rest

theorem Spread.mem_bodyChars (h : Spread spacing items text) (mem : c ∈ text) :
    c ∈ bodyChars := by
  induction h with
  | nil => exact absurd mem List.not_mem_nil
  | cons own blank _ _ _ ih =>
    simp only [List.mem_append] at mem
    rcases mem with core | between | rest
    · exact own.mem_bodyChars core
    · exact blank.mem_bodyChars between
    · exact ih rest

theorem Body.withoutWords (h : Body spacing items text) : WithoutWords text := by
  obtain ⟨lead, rest, rfl, blank, -, spread⟩ := h
  have all : ∀ c ∈ lead ++ rest, c ∈ bodyChars := by
    intro c mem
    exact (List.mem_append.1 mem).elim blank.mem_bodyChars spread.mem_bodyChars
  have begins : 'g' ∉ bodyChars := by decide +kernel
  have ends : 'n' ∉ bodyChars := by decide +kernel
  exact ⟨fun mem => begins (all _ mem), fun mem => ends (all _ mem)⟩

end Bodies

section Maps

variable {k : String} {read : List Char → Except FontFault β} {out : β → List γ}
  {blocks : List Block} {ss : List Section} {text : List Char}

theorem withoutWords_bodies {spacing : String → Spacing}
    (h : List.Forall₂ (Block.WrittenAs spacing) blocks ss) : ∀ s ∈ ss, WithoutWords s.body := by
  induction h with
  | nil => exact fun _ mem => absurd mem List.not_mem_nil
  | cons own _ ih => exact List.forall_mem_cons.2 ⟨own.2.withoutWords, ih⟩

theorem gather_bodies (reads : LineReader k read out)
    (h : List.Forall₂ (Block.WrittenAs Spacing.lined) blocks ss) :
    gather read out (((ss.filter (·.keyword = k)).map (·.body)).flatMap lines) =
      gather read out ((itemsOf k blocks).map Item.line) := by
  induction h with
  | nil => rfl
  | @cons block s blocks ss own _ ih =>
    obtain ⟨same, body⟩ := own
    unfold itemsOf at ih ⊢
    by_cases here : block.keyword = k
    · subst here
      have lines := body.gather_lines reads block.own
      rw [List.filter_cons_of_pos (by simpa using same), List.filter_cons_of_pos (by simp),
        List.map_cons, List.flatMap_cons, List.flatMap_cons, List.map_append, gather_append,
        gather_append, lines, ih]
    · have other : s.keyword ≠ k := fun at_ => here (same.symm.trans at_)
      rw [List.filter_cons_of_neg (by simpa using other),
        List.filter_cons_of_neg (by simpa using here), ih]

/-- The lines in all sections of a keyword are read as the entries there, one by one. -/
theorem Writes.gather_entryLines (h : Writes Spacing.lined blocks text)
    (mem : k ∈ sectionKeywords) (reads : LineReader k read out) :
    gather read out (entryLines k text) = gather read out ((itemsOf k blocks).map Item.line) := by
  obtain ⟨ss, layout, bodies⟩ := h
  rw [entryLines, layout.sections_eq keywords_sectionKeywords mem (withoutWords_bodies bodies)]
  exact gather_bodies reads bodies

end Maps

def Item.evenly (inside : List Char) (item : Item) : List Char :=
  inside.intercalate (item.words.map Word.text)

def Block.evenly (inside between : List Char) (block : Block) : Section where
  keyword := block.keyword
  body := between ++ block.items.flatMap fun item => item.evenly inside ++ between

def evenly (inside between : List Char) (blocks : List Block) : List Char :=
  blocks.flatMap fun block => (block.evenly inside between).text

structure Spacing.Allows (spacing : Spacing) (inside between : List Char) : Prop where
  blank_inside : Blanks inside
  blank_between : Blanks between
  within : spacing.inside inside
  apart : spacing.between between
  around : spacing.around between

section Even

variable {spacing : Spacing} {inside between : List Char}

theorem Spacing.free_allows (blank : Blanks inside) (blank' : Blanks between) (ne : inside ≠ [])
    (ne' : between ≠ []) : free.Allows inside between :=
  ⟨blank, blank', ne, ne', ne'⟩

theorem Spacing.lined_allows (keyword : String) (blank : Blanks inside) (blank' : Blanks between)
    (without : '\n' ∉ inside) (feed : '\n' ∈ between) :
    (lined keyword).Allows inside between :=
  ⟨blank, blank', without, .inr feed, trivial⟩

theorem Spacing.Allows.joined (h : spacing.Allows inside between) {words : List Word}
    (ne : words ≠ []) : Joined spacing.inside words (inside.intercalate (words.map Word.text)) := by
  induction words with
  | nil => exact absurd rfl ne
  | cons w words ih =>
    cases words with
    | nil =>
      rw [List.map_singleton, List.intercalate_singleton]
      exact .last
    | cons v words =>
      rw [List.map_cons, List.map_cons, List.intercalate_cons_cons, List.append_assoc]
      exact .next h.blank_inside h.within (ih (List.cons_ne_nil v words))

theorem Item.words_ne_nil (item : Item) : item.words ≠ [] := by
  cases item <;> exact List.cons_ne_nil _ _

theorem Spacing.Allows.spread (h : spacing.Allows inside between) (items : List Item) :
    Spread spacing items (items.flatMap fun item => item.evenly inside ++ between) := by
  induction items with
  | nil => exact .nil
  | cons item items ih =>
    rw [List.flatMap_cons, List.append_assoc]
    exact .cons (h.joined item.words_ne_nil) h.blank_between (fun _ => h.around)
      (fun _ => h.apart) ih

theorem writes_evenly {spacing : String → Spacing} {blocks : List Block}
    (h : ∀ block ∈ blocks, (spacing block.keyword).Allows inside between)
    (known : ∀ block ∈ blocks, block.keyword ∈ sectionKeywords) :
    Writes spacing blocks (evenly inside between blocks) := by
  have free : Free sectionKeywords [] := by decide
  induction blocks with
  | nil => exact ⟨[], .plain free, .nil⟩
  | cons block blocks ih =>
    obtain ⟨allowed, others⟩ := List.forall_mem_cons.1 h
    obtain ⟨mem, rest⟩ := List.forall_mem_cons.1 known
    obtain ⟨ss, layout, written⟩ := ih others rest
    refine ⟨block.evenly inside between :: ss, @Layout.next _ [] _ _ _ free mem layout,
      .cons ⟨rfl, ?_⟩ written⟩
    exact ⟨between, _, rfl, allowed.blank_between, allowed.around, allowed.spread block.items⟩

end Even

end PdfContent.CMap
