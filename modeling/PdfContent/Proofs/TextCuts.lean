import Mathlib.Data.List.Infix
import PdfContent.Text.Blank
import PdfContent.Text.Search

/-!
Where words, lines and marks are found in a text that is put together from pieces. A search passes
over a piece in which no occurrence starts, so what it finds depends on the rest alone.
-/

namespace PdfContent.Text

variable {word a b : List Char}

def Apart (word a b : List Char) : Prop := ∀ y, y <:+ a → y ≠ [] → ¬ word <+: y ++ b

theorem apart_nil (word b : List Char) : Apart word [] b := by
  intro y suffix ne
  exact absurd (List.suffix_nil.1 suffix) ne

theorem apart_cons {c : Char} :
    Apart word (c :: a) b ↔ ¬ word <+: c :: (a ++ b) ∧ Apart word a b := by
  constructor
  · intro h
    exact ⟨h (c :: a) (List.suffix_refl _) (by simp),
      fun y suffix => h y (suffix.trans (List.suffix_cons c a))⟩
  · intro h y suffix ne
    cases List.suffix_cons_iff.1 suffix with
    | inl whole => rw [whole]; exact h.1
    | inr tail => exact h.2 y tail ne

theorem apart_append {a₁ a₂ : List Char} :
    Apart word (a₁ ++ a₂) b ↔ Apart word a₁ (a₂ ++ b) ∧ Apart word a₂ b := by
  induction a₁ with
  | nil => simp [apart_nil]
  | cons c a₁ ih =>
    rw [List.cons_append, apart_cons, apart_cons, ih, List.append_assoc, and_assoc]

theorem apart_of_getElem? {n : Nat} {d : Char} (at_n : word[n]? = some d) (ha : d ∉ a)
    (hb : d ∉ b.take n) : Apart word a b := by
  intro y suffix ne start
  obtain ⟨t, ht⟩ := start
  have lt : n < word.length := (List.getElem?_eq_some_iff.1 at_n).1
  have found : (y ++ b)[n]? = some d := by
    rw [← ht, List.getElem?_append_left lt, at_n]
  by_cases hn : n < y.length
  · rw [List.getElem?_append_left hn] at found
    exact ha (suffix.subset (List.mem_of_getElem? found))
  · have pos := List.length_pos_iff.2 ne
    have reached : (b.take n)[n - y.length]? = some d := by
      rw [List.getElem?_append_right (by omega)] at found
      rw [List.getElem?_take_of_lt (by omega), found]
    exact hb (List.mem_of_getElem? reached)

/-- No ending of `a` is a start of the word or begins with it. -/
def Clear (word a : List Char) : Prop :=
  ∀ y ∈ a.tails, y = [] ∨ ¬ word <+: y ∧ ¬ y <+: word

instance (word a : List Char) : Decidable (Clear word a) :=
  inferInstanceAs (Decidable (∀ y ∈ a.tails, y = [] ∨ ¬ word <+: y ∧ ¬ y <+: word))

theorem not_prefix_append {x y : List Char} (h : ¬ x <+: y ∧ ¬ y <+: x) (b : List Char) :
    ¬ x <+: y ++ b := by
  intro start
  cases List.prefix_or_prefix_of_prefix start (List.prefix_append y b) with
  | inl within => exact h.1 within
  | inr beyond => exact h.2 beyond

theorem Clear.apart (h : Clear word a) (b : List Char) : Apart word a b := by
  intro y suffix ne
  exact not_prefix_append ((h y ((List.mem_tails y a).2 suffix)).resolve_left ne) b

theorem apart_of_not_infix {next : List Char} (free : ¬ word <:+: a)
    (clear : Clear next word.tail) (b : List Char) : Apart word a (next ++ b) := by
  intro y suffix ne start
  cases List.prefix_or_prefix_of_prefix start (List.prefix_append y (next ++ b)) with
  | inl within => exact free (within.isInfix.trans suffix.isInfix)
  | inr beyond =>
    obtain ⟨z, rfl⟩ := beyond
    have within : z <+: next ++ b := (List.prefix_append_right_inj y).1 start
    have ending : z ∈ (y ++ z).tail.tails := by
      rw [List.mem_tails, List.tail_append_of_ne_nil ne]
      exact List.suffix_append _ _
    cases clear z ending with
    | inl none =>
      rw [none, List.append_nil] at free
      exact free suffix.isInfix
    | inr distinct => exact not_prefix_append distinct.symm b within

theorem cut?_append_of_apart (h : Apart word a b) :
    cut? word (a ++ b) = (cut? word b).map fun r => (a ++ r.1, r.2) := by
  induction a with
  | nil => simp
  | cons c a ih =>
    obtain ⟨head, tail⟩ := apart_cons.1 h
    have other : word.isPrefixOf (c :: (a ++ b)) = false := by
      rw [← Bool.not_eq_true, List.isPrefixOf_iff_prefix]
      exact head
    simp only [List.cons_append, cut?, other, Bool.false_eq_true, if_false, ih tail,
      Option.map_map]
    rfl

theorem cut?_append_self (ne : word ≠ []) (b : List Char) :
    cut? word (word ++ b) = some ([], b) := by
  cases word with
  | nil => exact absurd rfl ne
  | cons c word =>
    have start : (c :: word).isPrefixOf (c :: (word ++ b)) = true :=
      List.isPrefixOf_iff_prefix.2 (List.prefix_append (c :: word) b)
    simp only [List.cons_append, cut?, start, if_true]
    simp

theorem cut?_eq_none (free : ¬ word <:+: a) : cut? word a = none := by
  cases h : cut? word a with
  | none => rfl
  | some r => exact absurd ⟨r.1, r.2, (cut?_eq_some h).symm⟩ free

theorem cut?_mark {mark : Char} (h : mark ∉ a) (b : List Char) :
    cut? [mark] (a ++ mark :: b) = some (a, b) := by
  have apart : Apart [mark] a (mark :: b) := apart_of_getElem? (n := 0) rfl h (by simp)
  have found : cut? [mark] (mark :: b) = some ([], b) := cut?_append_self (by simp) b
  rw [cut?_append_of_apart apart, found]
  simp

theorem cut?_mark_eq_none {mark : Char} (h : mark ∉ a) : cut? [mark] a = none := by
  apply cut?_eq_none
  rw [List.singleton_infix_iff]
  exact h

theorem ne_of_mem_reverse {mark : Char} (h : mark ∉ b) : ∀ c ∈ b.reverse, (c != mark) = true := by
  intro c hc
  rw [bne_iff_ne]
  intro same
  exact h (same ▸ List.mem_reverse.1 hc)

theorem afterLast_append {mark : Char} (a : List Char) (h : mark ∉ b) :
    afterLast mark (a ++ mark :: b) = b := by
  simp only [afterLast, List.reverse_append, List.reverse_cons, List.append_assoc]
  rw [List.takeWhile_append_of_pos (ne_of_mem_reverse h)]
  simp

theorem beforeLast?_append {mark : Char} (a : List Char) (h : mark ∉ b) :
    beforeLast? mark (a ++ mark :: b) = some a := by
  have mem : mark ∈ a ++ mark :: b := by simp
  simp only [beforeLast?, mem, if_true, List.reverse_append, List.reverse_cons, List.append_assoc]
  rw [List.dropWhile_append_of_pos (ne_of_mem_reverse h)]
  simp

theorem trimChars_append {a b cs : List Char} (ha : ∀ c ∈ a, isBlank c) (hb : ∀ c ∈ b, isBlank c)
    (inner : ∀ c ∈ cs, isBlank c = false) (ne : cs ≠ []) : trimChars (a ++ cs ++ b) = cs := by
  have first : trimStartChars (a ++ cs ++ b) = cs ++ b := by
    rw [trimStartChars, List.append_assoc, List.dropWhile_append_of_pos ha]
    cases cs with
    | nil => exact absurd rfl ne
    | cons c cs => simp [inner c (List.mem_cons_self ..)]
  have back : ∀ c ∈ b.reverse, isBlank c := fun c hc => hb c (List.mem_reverse.1 hc)
  rw [trimChars, first, trimEndChars, List.reverse_append, List.dropWhile_append_of_pos back]
  cases h : cs.reverse with
  | nil => exact absurd (List.reverse_eq_nil_iff.1 h) ne
  | cons c rest =>
    have mem : c ∈ cs := by
      rw [← List.mem_reverse, h]
      exact List.mem_cons_self ..
    rw [List.dropWhile_cons_of_neg (by simp [inner c mem]), ← h, List.reverse_reverse]

theorem trimChars_of_inner {cs : List Char} (inner : ∀ c ∈ cs, isBlank c = false) :
    trimChars cs = cs := by
  by_cases ne : cs = []
  · subst ne
    rfl
  · have h := trimChars_append (a := []) (b := []) (by simp) (by simp) inner ne
    simpa using h

theorem linesFrom_append {line : List Char} (h : '\n' ∉ line) (read rest : List Char) :
    linesFrom read (line ++ rest) = linesFrom (line.reverse ++ read) rest := by
  induction line generalizing read with
  | nil => rfl
  | cons c line ih =>
    rw [List.mem_cons, not_or] at h
    obtain ⟨hc, tail⟩ := h
    have other : (c == '\n') = false := beq_false_of_ne (Ne.symm hc)
    simp only [List.cons_append, linesFrom, other, Bool.false_eq_true, if_false, ih tail]
    simp

def lineEnds : List (List Char) := [['\n'], ['\r', '\n']]

theorem dropReturn_of_not_mem {line : List Char} (h : '\r' ∉ line) : dropReturn line = line := by
  have last : line.getLast? ≠ some '\r' := fun found => h (List.mem_of_getLast? found)
  simp [dropReturn, last]

theorem lines_append_feed {line : List Char} (h : '\n' ∉ line) (rest : List Char) :
    lines (line ++ '\n' :: rest) = dropReturn line :: lines rest := by
  rw [lines, linesFrom_append h]
  simp [linesFrom, lines]

theorem lines_append {line ending : List Char} (feed : '\n' ∉ line) (back : '\r' ∉ line)
    (mem : ending ∈ lineEnds) (rest : List Char) :
    lines (line ++ ending ++ rest) = line :: lines rest := by
  simp only [lineEnds, List.mem_cons, List.not_mem_nil, or_false] at mem
  rw [List.append_assoc]
  cases mem with
  | inl plain =>
    rw [plain, List.singleton_append, lines_append_feed feed, dropReturn_of_not_mem back]
  | inr two =>
    have whole : '\n' ∉ line ++ ['\r'] := List.not_mem_append feed (by decide)
    have dropped : dropReturn (line ++ ['\r']) = line := by simp [dropReturn]
    have cut := lines_append_feed whole rest
    rw [dropped, List.append_assoc] at cut
    rw [two]
    exact cut

theorem lines_of_not_mem {line : List Char} (feed : '\n' ∉ line) (ne : line ≠ []) :
    lines line = [line] := by
  have whole := linesFrom_append feed [] []
  rw [List.append_nil, List.append_nil] at whole
  rw [lines, whole]
  simp [linesFrom, ne]

end PdfContent.Text
