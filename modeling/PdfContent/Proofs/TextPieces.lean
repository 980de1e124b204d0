import Mathlib.Data.List.DropRight
import PdfContent.Text.Blank
import PdfContent.Text.Search

/-!
A text in pieces, and a piece without its blanks. The pieces between marks are those of the list of
characters split at the mark. What trimming leaves is the one part of a text that blanks surround
and that neither starts nor ends with a blank.
-/

namespace PdfContent.Text

variable {a b cs core : List Char} {mark : Char}

theorem pieces_eq_splitOn (mark : Char) (cs : List Char) : pieces mark cs = cs.splitOn mark := by
  induction cs with
  | nil => rfl
  | cons c cs ih =>
    rw [pieces, List.splitOn_cons_eq_if_modifyHead, ih]
    by_cases h : (c == mark) = true
    · rw [if_pos h, if_pos h]
    · rw [if_neg h, if_neg h]
      cases split : cs.splitOn mark with
      | nil => exact absurd split (List.splitOnP_ne_nil _ cs)
      | cons piece rest => rfl

/-- The core stands in the text between blanks, and no blank is at its own ends. -/
def Trims (cs core : List Char) : Prop :=
  ∃ a b, cs = a ++ core ++ b ∧ (∀ c ∈ a, isBlank c) ∧ (∀ c ∈ b, isBlank c) ∧
    (∀ c ∈ core.head?, isBlank c = false) ∧ ∀ c ∈ core.getLast?, isBlank c = false

theorem trimEndChars_append (hb : ∀ c ∈ b, isBlank c) :
    trimEndChars (cs ++ b) = trimEndChars cs := by
  have back : ∀ c ∈ b.reverse, isBlank c := fun c hc => hb c (List.mem_reverse.1 hc)
  rw [trimEndChars, List.reverse_append, List.dropWhile_append_of_pos back, trimEndChars]

theorem trimStartChars_of_head (first : ∀ c ∈ cs.head?, isBlank c = false) :
    trimStartChars cs = cs := by
  cases cs with
  | nil => rfl
  | cons c cs => rw [trimStartChars, List.dropWhile_cons_of_neg (by simp [first c rfl])]

theorem trimEndChars_of_last (last : ∀ c ∈ cs.getLast?, isBlank c = false) :
    trimEndChars cs = cs := by
  have first : ∀ c ∈ cs.reverse.head?, isBlank c = false := by
    rw [List.head?_reverse]
    exact last
  rw [trimEndChars]
  exact (congrArg List.reverse (trimStartChars_of_head first)).trans (List.reverse_reverse cs)

theorem Trims.eq (h : Trims cs core) : trimChars cs = core := by
  obtain ⟨a, b, rfl, ha, hb, first, last⟩ := h
  have start : trimStartChars (a ++ core ++ b) = trimStartChars (core ++ b) := by
    rw [trimStartChars, List.append_assoc, List.dropWhile_append_of_pos ha, trimStartChars]
  cases core with
  | nil =>
    have none : trimStartChars ([] ++ b) = [] := List.dropWhile_eq_nil_iff.2 hb
    rw [trimChars, start, none]
    rfl
  | cons c core =>
    have head : ∀ d ∈ (c :: core ++ b).head?, isBlank d = false := first
    rw [trimChars, start, trimStartChars_of_head head, trimEndChars_append hb,
      trimEndChars_of_last last]

theorem not_isBlank_head_dropWhile (cs : List Char) :
    ∀ c ∈ (cs.dropWhile isBlank).head?, isBlank c = false := by
  intro c hc
  have first := List.head?_dropWhile_not isBlank cs
  rw [Option.mem_def.1 hc] at first
  exact first

theorem trims_trimChars (cs : List Char) : Trims cs (trimChars cs) := by
  have back : trimStartChars cs = trimChars cs ++ (trimStartChars cs).rtakeWhile isBlank :=
    List.rdropWhile_append_rtakeWhile.symm
  refine ⟨cs.takeWhile isBlank, (trimStartChars cs).rtakeWhile isBlank, ?_, ?_, ?_, ?_, ?_⟩
  · rw [List.append_assoc, ← back]
    exact List.takeWhile_append_dropWhile.symm
  · exact fun c => List.mem_takeWhile_imp
  · exact fun c => List.mem_rtakeWhile_imp
  · intro c hc
    apply not_isBlank_head_dropWhile cs
    change c ∈ (trimStartChars cs).head?
    rw [back, List.head?_append, Option.mem_def.1 hc]
    rfl
  · intro c hc
    rw [trimChars, trimEndChars, List.getLast?_reverse] at hc
    exact not_isBlank_head_dropWhile _ c hc

theorem trims_iff : Trims cs core ↔ trimChars cs = core := by
  constructor
  · exact Trims.eq
  · rintro rfl
    exact trims_trimChars cs

end PdfContent.Text
