import Mathlib.Data.List.Forall2
import PdfContent.Font.CMap.Entry
import PdfContent.Proofs.TextCuts

/-!
How a character map is laid out: sections of rows, one entry in a row, and any other text between
the sections. Whatever stands between them, a scan for the sections of one kind finds just these,
and reading their lines gives the entries in the order they are written.
-/

namespace PdfContent.CMap

open Text

def beginWord (keyword : String) : List Char := "begin".toList ++ keyword.toList

def endWord (keyword : String) : List Char := "end".toList ++ keyword.toList

/-- Keywords whose words cannot be taken for one another, or found across their joints. -/
structure Keywords (keywords : List String) : Prop where
  opening : ∀ k ∈ keywords, ∀ k' ∈ keywords, k ≠ k' → Clear (beginWord k) (beginWord k')
  joint : ∀ k ∈ keywords, ∀ k' ∈ keywords, Clear (beginWord k') (beginWord k).tail
  closing : ∀ k ∈ keywords, ∀ k' ∈ keywords, Clear (beginWord k) (endWord k')

structure Section where
  keyword : String
  body : List Char

def Section.text (s : Section) : List Char :=
  beginWord s.keyword ++ (s.body ++ endWord s.keyword)

def Free (keywords : List String) (text : List Char) : Prop :=
  ∀ k ∈ keywords, ¬ beginWord k <:+: text

instance (keywords : List String) (text : List Char) : Decidable (Free keywords text) :=
  inferInstanceAs (Decidable (∀ k ∈ keywords, ¬ beginWord k <:+: text))

/-- A text with these sections, in order, between other texts. -/
inductive Layout (keywords : List String) : List Char → List Section → Prop
  | plain {text} (free : Free keywords text) : Layout keywords text []
  | next {before rest s ss} (free : Free keywords before) (mem : s.keyword ∈ keywords)
      (tail : Layout keywords rest ss) : Layout keywords (before ++ (s.text ++ rest)) (s :: ss)

def WithoutWords (text : List Char) : Prop := 'g' ∉ text ∧ 'n' ∉ text

variable {keywords : List String} {k : String} {text : List Char} {ss : List Section}

theorem sections_append_of_apart {keyword a b : List Char}
    (h : Apart ("begin".toList ++ keyword) a b) :
    sections keyword (a ++ b) = sections keyword b := by
  rw [sections.eq_def keyword (a ++ b), sections.eq_def keyword b, cut?_append_of_apart h]
  cases cut? ("begin".toList ++ keyword) b <;> rfl

theorem sections_eq_nil {keyword text : List Char} (h : ¬ "begin".toList ++ keyword <:+: text) :
    sections keyword text = [] := by
  rw [sections.eq_def, cut?_eq_none h]

theorem apart_begin_body {s : Section} (clean : WithoutWords s.body) (k : String)
    (rest : List Char) : Apart (beginWord k) s.body (endWord s.keyword ++ rest) :=
  apart_of_getElem? (n := 2) (d := 'g') (by simp [beginWord]) clean.1 (by simp [endWord])

theorem apart_end_body {s : Section} (clean : WithoutWords s.body) (rest : List Char) :
    Apart (endWord s.keyword) s.body (endWord s.keyword ++ rest) :=
  apart_of_getElem? (n := 1) (d := 'n') (by simp [endWord]) clean.2 (by simp [endWord])

theorem sections_eq_cons {keyword text before body inner rest : List Char}
    (opened : cut? ("begin".toList ++ keyword) text = some (before, body))
    (closed : cut? ("end".toList ++ keyword) body = some (inner, rest)) :
    sections keyword text = inner :: sections keyword rest := by
  rw [sections]
  split
  · rename_i none
    rw [opened] at none
    cases none
  · rename_i found
    rw [opened] at found
    cases found
    split
    · rename_i none
      rw [closed] at none
      cases none
    · rename_i found
      rw [closed] at found
      cases found
      rfl

theorem sections_own {s : Section} (clean : WithoutWords s.body) (rest : List Char) :
    sections s.keyword.toList (s.text ++ rest) = s.body :: sections s.keyword.toList rest := by
  have opened : cut? (beginWord s.keyword) (s.text ++ rest) =
      some ([], s.body ++ (endWord s.keyword ++ rest)) := by
    have ne : beginWord s.keyword ≠ [] := by simp [beginWord]
    have found := cut?_append_self ne (s.body ++ (endWord s.keyword ++ rest))
    simpa only [Section.text, List.append_assoc] using found
  have closed : cut? (endWord s.keyword) (s.body ++ (endWord s.keyword ++ rest)) =
      some (s.body, rest) := by
    have ne : endWord s.keyword ≠ [] := by simp [endWord]
    have found := cut?_append_self ne rest
    rw [cut?_append_of_apart (apart_end_body clean rest), found]
    simp
  exact sections_eq_cons opened closed

theorem sections_other {s : Section} (kw : Keywords keywords) (mem : k ∈ keywords)
    (memS : s.keyword ∈ keywords) (ne : k ≠ s.keyword) (clean : WithoutWords s.body)
    (rest : List Char) : sections k.toList (s.text ++ rest) = sections k.toList rest := by
  apply sections_append_of_apart
  rw [Section.text, apart_append, apart_append]
  refine ⟨?_, ?_, ?_⟩
  · exact (kw.opening k mem _ memS ne).apart _
  · exact apart_begin_body clean k rest
  · exact (kw.closing k mem _ memS).apart _

theorem Layout.sections_eq (h : Layout keywords text ss) (kw : Keywords keywords)
    (mem : k ∈ keywords) (clean : ∀ s ∈ ss, WithoutWords s.body) :
    sections k.toList text = (ss.filter (·.keyword = k)).map (·.body) := by
  induction h with
  | plain free => exact sections_eq_nil (free k mem)
  | @next before rest s ss free memS _ ih =>
    have body := clean s (List.mem_cons_self ..)
    have tail := ih fun s hs => clean s (List.mem_cons_of_mem _ hs)
    have apart : Apart (beginWord k) before (s.text ++ rest) := by
      rw [Section.text, List.append_assoc]
      exact apart_of_not_infix (free k mem) (kw.joint k mem _ memS) _
    rw [sections_append_of_apart apart]
    by_cases same : s.keyword = k
    · subst same
      rw [sections_own body, tail]
      simp
    · rw [sections_other kw mem memS (Ne.symm same) body, tail]
      simp [same]

def gapChars : List Char := ['\t', '\x0c', ' ']

def Gap (s : List Char) : Prop := ∀ c ∈ s, c ∈ gapChars

variable {α β γ : Type} {Row : List Char → α → Prop}

inductive Line (Row : List Char → α → Prop) : List Char → List α → Prop
  | blank {line} (gap : Gap line) : Line Row line []
  | row {line entry} (row : Row line entry) : Line Row line [entry]

/-- The body of a section, one entry in a row. The last line may lack its end. -/
inductive Rows (Row : List Char → α → Prop) : List Char → List α → Prop
  | last {line entries} (own : Line Row line entries) : Rows Row line entries
  | next {line ending rest entries more} (own : Line Row line entries)
      (mem : ending ∈ lineEnds) (tail : Rows Row rest more) :
      Rows Row (line ++ ending ++ rest) (entries ++ more)

def Lists (keyword : String) (Row : List Char → α → Prop) (ss : List Section)
    (entries : List α) : Prop :=
  ∃ parts, List.Forall₂ (Rows Row) ((ss.filter (·.keyword = keyword)).map (·.body)) parts ∧
    parts.flatten = entries

def PlainLine (line : List Char) : Prop := ∀ c ∈ line, c ∉ ['g', 'n', '\n', '\r']

def Plain (Row : List Char → α → Prop) : Prop :=
  ∀ line entry, Row line entry → line ≠ [] ∧ PlainLine line

theorem Line.plainLine {line : List Char} {entries : List α} (h : Line Row line entries)
    (plain : Plain Row) : PlainLine line := by
  cases h with
  | blank gap =>
    intro c hc
    have apart : gapChars.all (· ∉ ['g', 'n', '\n', '\r']) := by decide
    exact of_decide_eq_true (List.all_eq_true.1 apart c (gap c hc))
  | row row => exact (plain _ _ row).2

theorem Rows.not_mem {body : List Char} {entries : List α} (h : Rows Row body entries)
    (plain : Plain Row) : ∀ c ∈ body, c ∉ ['g', 'n'] := by
  have weaken : ∀ c : Char, c ∉ ['g', 'n', '\n', '\r'] → c ∉ ['g', 'n'] := by
    intro c
    simp only [List.mem_cons, List.not_mem_nil, or_false, not_or]
    exact fun h => ⟨h.1, h.2.1⟩
  induction h with
  | last own => exact fun c hc => weaken c (own.plainLine plain c hc)
  | @next line ending _ _ _ own mem _ ih =>
    intro c hc
    simp only [List.mem_append] at hc
    rcases hc with (hc | hc) | hc
    · exact weaken c (own.plainLine plain c hc)
    · have apart : lineEnds.flatten.all (· ∉ ['g', 'n']) := by decide
      have inside : c ∈ lineEnds.flatten := List.mem_flatten.2 ⟨ending, mem, hc⟩
      exact of_decide_eq_true (List.all_eq_true.1 apart c inside)
    · exact ih c hc

theorem Rows.withoutWords {body : List Char} {entries : List α} (h : Rows Row body entries)
    (plain : Plain Row) : WithoutWords body :=
  ⟨fun mem => h.not_mem plain _ mem (by decide), fun mem => h.not_mem plain _ mem (by decide)⟩

theorem Lists.withoutWords {entries : List α} (h : Lists k Row ss entries) (plain : Plain Row) :
    ∀ s ∈ ss, s.keyword = k → WithoutWords s.body := by
  obtain ⟨parts, rows, -⟩ := h
  intro s hs same
  have mem : s.body ∈ (ss.filter (·.keyword = k)).map (·.body) := by
    apply List.mem_map_of_mem
    simp [hs, same]
  obtain ⟨i, lt, at_i⟩ := List.mem_iff_getElem.1 mem
  have row := List.Forall₂.get rows lt (List.Forall₂.length_eq rows ▸ lt)
  rw [List.get_eq_getElem, at_i] at row
  exact row.withoutWords plain

def gather {ε ι : Type} (read : ι → Except ε β) (out : β → List γ) (list : List ι) :
    Except ε (List γ) :=
  (list.mapM read).map fun results => results.flatMap out

section Gather

variable {ε ι : Type} (read : ι → Except ε β) (out : β → List γ)

theorem gather_singleton (x : ι) : gather read out [x] = (read x).map out := by
  rw [gather, List.mapM_cons, List.mapM_nil]
  cases read x with
  | error e => rfl
  | ok b => exact congrArg Except.ok (List.flatMap_singleton out b)

theorem gather_append (list more : List ι) :
    gather read out (list ++ more) =
      (gather read out list).bind fun a => (gather read out more).map (a ++ ·) := by
  rw [gather, gather, gather, List.mapM_append]
  cases list.mapM read with
  | error e => rfl
  | ok results =>
    cases more.mapM read with
    | error e => rfl
    | ok others => exact congrArg Except.ok List.flatMap_append

theorem gather_cons (x : ι) (list : List ι) :
    gather read out (x :: list) =
      ((read x).map out).bind fun a => (gather read out list).map (a ++ ·) := by
  rw [← List.singleton_append, gather_append, gather_singleton]

end Gather

theorem filterMap_id_append (list more : List (Option γ)) :
    (list ++ more).filterMap id = list.flatMap Option.toList ++ more.flatMap Option.toList := by
  rw [List.filterMap_eq_flatMap_toList, List.flatMap_append]
  rfl

def Yields (read : List Char → Except FontFault β) (out : β → List γ) (lines : List (List Char))
    (values : List γ) : Prop :=
  ∃ results, lines.mapM read = .ok results ∧ results.flatMap out = values

variable {read : List Char → Except FontFault β} {out : β → List γ}

theorem yields_iff {lines : List (List Char)} {values : List γ} :
    Yields read out lines values ↔ gather read out lines = .ok values := by
  rw [Yields, gather]
  cases lines.mapM read with
  | error e => simp [Except.map]
  | ok results => simp [Except.map]

theorem Yields.nil : Yields read out [] [] := yields_iff.2 rfl

theorem Yields.single {line : List Char} {result : β} (h : read line = .ok result) :
    Yields read out [line] (out result) := by
  rw [yields_iff, gather_singleton, h]
  rfl

theorem Yields.append {lines more : List (List Char)} {values others : List γ}
    (h : Yields read out lines values) (h' : Yields read out more others) :
    Yields read out (lines ++ more) (values ++ others) := by
  rw [yields_iff] at h h' ⊢
  rw [gather_append, h, h']
  rfl

/-- A reader of single lines that takes each row to the values of its entry. -/
structure Reads (Row : List Char → α → Prop) (read : List Char → Except FontFault β)
    (out : β → List γ) (values : α → List γ) : Prop where
  plain : Plain Row
  blank : ∀ line, Gap line → ∃ result, read line = .ok result ∧ out result = []
  row : ∀ line entry, Row line entry → ∃ result, read line = .ok result ∧ out result = values entry

variable {values : α → List γ}

theorem Line.yields {line : List Char} {entries : List α} (h : Line Row line entries)
    (reads : Reads Row read out values) : Yields read out [line] (entries.flatMap values) := by
  cases h with
  | blank gap =>
    obtain ⟨result, done, none⟩ := reads.blank line gap
    rw [List.flatMap_nil, ← none]
    exact Yields.single done
  | row row =>
    obtain ⟨result, done, same⟩ := reads.row line _ row
    rw [List.flatMap_singleton, ← same]
    exact Yields.single done

theorem Rows.yields {body : List Char} {entries : List α} (h : Rows Row body entries)
    (reads : Reads Row read out values) :
    Yields read out (lines body) (entries.flatMap values) := by
  induction h with
  | @last line entries own =>
    have feed : '\n' ∉ line := fun mem => own.plainLine reads.plain _ mem (by decide)
    by_cases empty : line = []
    · -- Nothing after the last line end is not a line, and has no row.
      subst empty
      cases own with
      | blank gap => exact Yields.nil
      | row row => exact absurd rfl (reads.plain _ _ row).1
    · rw [lines_of_not_mem feed empty]
      exact own.yields reads
  | @next line ending rest entries more own mem _ ih =>
    have feed : '\n' ∉ line := fun mem => own.plainLine reads.plain _ mem (by decide)
    have back : '\r' ∉ line := fun mem => own.plainLine reads.plain _ mem (by decide)
    rw [lines_append feed back mem, List.flatMap_append, ← List.singleton_append]
    exact (own.yields reads).append ih

theorem yields_of_forall₂ {bodies : List (List Char)} {parts : List (List α)}
    (h : List.Forall₂ (Rows Row) bodies parts) (reads : Reads Row read out values) :
    Yields read out (bodies.flatMap lines) (parts.flatten.flatMap values) := by
  induction h with
  | nil => exact Yields.nil
  | cons rows _ ih =>
    rw [List.flatMap_cons, List.flatten_cons, List.flatMap_append]
    exact (rows.yields reads).append ih

/-- The lines of all sections of a keyword give the values of the entries listed in them. -/
theorem Layout.yields (h : Layout keywords text ss) (kw : Keywords keywords) (mem : k ∈ keywords)
    (clean : ∀ s ∈ ss, WithoutWords s.body) {entries : List α} (lists : Lists k Row ss entries)
    (reads : Reads Row read out values) :
    Yields read out (entryLines k text) (entries.flatMap values) := by
  obtain ⟨parts, rows, rfl⟩ := lists
  rw [entryLines, h.sections_eq kw mem clean]
  exact yields_of_forall₂ rows reads

theorem Layout.keyword_mem (h : Layout keywords text ss) : ∀ s ∈ ss, s.keyword ∈ keywords := by
  induction h with
  | plain => simp
  | next _ mem _ ih => exact List.forall_mem_cons.2 ⟨mem, ih⟩

theorem getElem?_insert_or {ν : Type} (m : Std.TreeMap Nat ν) (at_ : Nat) (value : ν) (k : Nat) :
    (m.insert at_ value)[k]? = (if at_ = k then some value else none).or m[k]? := by
  rw [Std.TreeMap.getElem?_insert]
  by_cases same : at_ = k <;> simp [same]

/-- Where every step answers for its own codes and leaves the others alone, the last entry that
answers for a code decides. -/
theorem foldl_eq_findSome? {σ ι κ ν : Type} {look : σ → κ → Option ν} {apply : σ → ι → σ}
    {at? : ι → κ → Option ν} (step : ∀ m e k, look (apply m e) k = (at? e k).or (look m k))
    (entries : List ι) (m : σ) (k : κ) :
    look (entries.foldl apply m) k =
      (entries.reverse.findSome? fun e => at? e k).or (look m k) := by
  induction entries generalizing m with
  | nil => simp
  | cons e entries ih =>
    rw [List.foldl_cons, ih, step, List.reverse_cons, List.findSome?_append,
      List.findSome?_singleton, Option.or_assoc]

theorem lookup_foldl_range {σ ν : Type} {look : σ → Nat → Option ν} {write : σ → Nat → σ}
    {low : Nat} {value : Nat → Option ν}
    (step : ∀ m i k, look (write m i) k = (if low + i = k then value i else none).or (look m k))
    (n : Nat) (m : σ) (k : Nat) :
    look ((List.range n).foldl write m) k =
      (if low ≤ k ∧ k < low + n then value (k - low) else none).or (look m k) := by
  induction n with
  | zero =>
    have outside : ¬ (low ≤ k ∧ k < low) := by omega
    simp [outside]
  | succ n ih =>
    rw [List.range_succ, List.foldl_append, List.foldl_cons, List.foldl_nil, step, ih]
    by_cases here : low + n = k
    · have within : low ≤ k ∧ k < low + (n + 1) := by omega
      have offset : k - low = n := by omega
      simp [here, within, offset]
    · have same : (low ≤ k ∧ k < low + (n + 1)) ↔ (low ≤ k ∧ k < low + n) := by omega
      simp [here, same]

theorem lookup_foldl_zipIdx {σ ι ν : Type} {look : σ → Nat → Option ν} {write : σ → ι × Nat → σ}
    {f : ι → Nat → Option ν}
    (step : ∀ m x at_ k, look (write m (x, at_)) k =
      (if at_ = k then f x k else none).or (look m k))
    (xs : List ι) (low : Nat) (m : σ) (k : Nat) :
    look ((xs.zipIdx low).foldl write m) k =
      (if low ≤ k then xs[k - low]?.bind fun x => f x k else none).or (look m k) := by
  induction xs generalizing low m with
  | nil => simp
  | cons x xs ih =>
    rw [List.zipIdx_cons, List.foldl_cons, ih, step]
    rcases Nat.lt_trichotomy low k with before | rfl | behind
    · obtain ⟨i, rfl⟩ : ∃ i, k = low + 1 + i := ⟨k - (low + 1), by omega⟩
      have other : low ≠ low + 1 + i := by omega
      have offset : low + 1 + i - low = i + 1 := by omega
      have reached : low ≤ low + 1 + i := by omega
      simp [other, offset, reached]
    · have later : ¬ low + 1 ≤ low := by omega
      simp [later]
    · have later : ¬ low + 1 ≤ k := by omega
      have other : low ≠ k := by omega
      have outside : ¬ low ≤ k := by omega
      simp [later, other, outside]

end PdfContent.CMap
