import PdfContent.Proofs.CMapNotation

/-!
The words of the entries of character maps. A line is read for what stands in brackets on it and for
the number behind, so lines with the same words are read alike, whatever blanks stand between them.
-/

namespace PdfContent.CMap

open Numeral Text

structure Digits where
  chars : List Char
  plain : ∀ c ∈ chars, c ∈ digitChars

def Digits.ofString (s : String) (plain : s.toList.all (· ∈ digitChars)) : Digits :=
  ⟨s.toList, fun c hc => of_decide_eq_true (List.all_eq_true.1 plain c hc)⟩

structure Figure extends Digits where
  ne_nil : chars ≠ []

inductive Word
  | code (hex : Digits)
  | number (figure : Figure)
  | opening
  | closing

namespace Word

def text : Word → List Char
  | code hex => '<' :: (hex.chars ++ ['>'])
  | number figure => figure.chars
  | opening => ['[']
  | closing => [']']

def hex? : Word → Option (List Char)
  | code hex => some hex.chars
  | _ => none

def chars : List Char := '<' :: '>' :: '[' :: ']' :: digitChars

theorem text_ne_nil (w : Word) : w.text ≠ [] := by
  cases w with
  | number figure => exact figure.ne_nil
  | _ => exact List.cons_ne_nil _ _

theorem mem_chars {w : Word} {c : Char} (mem : c ∈ w.text) : c ∈ chars := by
  cases w with
  | code hex =>
    simp only [text, List.mem_cons, List.mem_append, List.not_mem_nil, or_false] at mem
    rcases mem with rfl | mem | rfl
    · simp [chars]
    · simp [chars, hex.plain c mem]
    · simp [chars]
  | number figure => simp [chars, figure.plain c mem]
  | opening => simp [chars, List.mem_singleton.1 mem]
  | closing => simp [chars, List.mem_singleton.1 mem]

theorem not_mem_codes {hexes : List Digits} {c : Char} (apart : c ∉ '<' :: '>' :: digitChars) :
    ∀ w ∈ hexes.map code, c ∉ w.text := by
  intro w hw mem
  obtain ⟨hex, -, rfl⟩ := List.mem_map.1 hw
  simp only [text, List.mem_cons, List.mem_append, List.not_mem_nil, or_false] at mem
  rcases mem with rfl | mem | rfl
  · simp at apart
  · exact apart (by simp [hex.plain c mem])
  · simp at apart

end Word

inductive Item
  | char (code text : Digits)
  | range (low high text : Digits)
  | array (low high : Digits) (texts : List Digits)
  | space (low high : Digits)
  | cidChar (code : Digits) (cid : Figure)
  | cidRange (low high : Digits) (start : Figure)

namespace Item

def keyword : Item → String
  | char .. => "bfchar"
  | range .. => "bfrange"
  | array .. => "bfrange"
  | space .. => "codespacerange"
  | cidChar .. => "cidchar"
  | cidRange .. => "cidrange"

def words : Item → List Word
  | char code text => [.code code, .code text]
  | range low high text => [.code low, .code high, .code text]
  | array low high texts =>
    [.code low, .code high] ++ .opening :: (texts.map Word.code ++ [.closing])
  | space low high => [.code low, .code high]
  | cidChar code cid => [.code code, .number cid]
  | cidRange low high start => [.code low, .code high, .number start]

def line (item : Item) : List Char := item.words.flatMap Word.text

end Item

def lineBlanks : List Char := '\r' :: gapChars

def Inline (gap : List Char) : Prop := ∀ c ∈ gap, c ∈ lineBlanks

def Blanks (gap : List Char) : Prop := ∀ c ∈ gap, c ∈ '\n' :: lineBlanks

instance (gap : List Char) : Decidable (Blanks gap) :=
  List.decidableBAll _ gap

theorem lineBlanks_not_mem : ∀ c ∈ lineBlanks, c ∉ '\n' :: Word.chars := by
  have apart : lineBlanks.all (· ∉ '\n' :: Word.chars) := by decide +kernel
  exact fun c hc => of_decide_eq_true (List.all_eq_true.1 apart c hc)

theorem wordChars_not_mem : ∀ c ∈ Word.chars, c ∉ '\n' :: 'g' :: 'n' :: lineBlanks := by
  have apart : Word.chars.all (· ∉ '\n' :: 'g' :: 'n' :: lineBlanks) := by decide +kernel
  exact fun c hc => of_decide_eq_true (List.all_eq_true.1 apart c hc)

variable {gap line line' : List Char} {w : Word} {ws ws' : List Word} {c : Char}

theorem Inline.not_mem (h : Inline gap) (mark : c ∈ '\n' :: Word.chars) : c ∉ gap :=
  fun mem => lineBlanks_not_mem c (h c mem) mark

theorem Inline.isBlank (h : Inline gap) : ∀ c ∈ gap, isBlank c := by
  have all : lineBlanks.all Text.isBlank := by decide
  exact fun c hc => List.all_eq_true.1 all c (h c hc)

theorem Blanks.inline (h : Blanks gap) (feed : '\n' ∉ gap) : Inline gap := by
  intro c hc
  refine (List.mem_cons.1 (h c hc)).resolve_left fun same => ?_
  exact feed (same ▸ hc)

theorem hexTokens_append {a : List Char} (h : '<' ∉ a) (b : List Char) :
    hexTokens (a ++ b) = hexTokens b := by
  have apart : Apart ['<'] a b := apart_of_getElem? (n := 0) rfl h (by simp)
  rw [hexTokens.eq_def (a ++ b), hexTokens.eq_def b, cut?_append_of_apart apart]
  cases cut? ['<'] b <;> rfl

inductive Spaced : List Char → List Word → Prop
  | nil {gap : List Char} (blank : Inline gap) : Spaced gap []
  | cons {gap line : List Char} {w : Word} {ws : List Word} (blank : Inline gap)
      (tail : Spaced line ws) : Spaced (gap ++ (w.text ++ line)) (w :: ws)

namespace Spaced

theorem empty : Spaced [] [] := .nil fun _ mem => absurd mem List.not_mem_nil

theorem after (blank : Inline gap) (h : Spaced line ws) : Spaced (gap ++ line) ws := by
  have both {own : List Char} (h : Inline own) : Inline (gap ++ own) := by
    intro c hc
    exact (List.mem_append.1 hc).elim (blank c) (h c)
  cases h with
  | nil own => exact .nil (both own)
  | cons own tail =>
    rw [← List.append_assoc]
    exact .cons (both own) tail

theorem append (h : Spaced line ws) (h' : Spaced line' ws') :
    Spaced (line ++ line') (ws ++ ws') := by
  induction h with
  | nil blank => exact h'.after blank
  | cons blank _ ih =>
    rw [List.append_assoc, List.append_assoc]
    exact .cons blank ih

theorem word (w : Word) : Spaced w.text [w] := by
  have blank : Inline [] := fun _ mem => absurd mem List.not_mem_nil
  have alone : Spaced ([] ++ (w.text ++ [])) [w] := .cons blank empty
  rwa [List.nil_append, List.append_nil] at alone

theorem words (ws : List Word) : Spaced (ws.flatMap Word.text) ws := by
  induction ws with
  | nil => exact empty
  | cons w ws ih => exact (word w).append ih

theorem split (h : Spaced line (ws ++ w :: ws')) :
    ∃ before behind, line = before ++ (w.text ++ behind) ∧ Spaced before ws ∧
      Spaced behind ws' := by
  induction ws generalizing line with
  | nil =>
    cases h with
    | cons blank tail => exact ⟨_, _, rfl, .nil blank, tail⟩
  | cons v ws ih =>
    cases h with
    | @cons gap rest _ _ blank tail =>
      obtain ⟨before, behind, rfl, front, back⟩ := ih tail
      refine ⟨gap ++ (v.text ++ before), behind, ?_, .cons blank front, back⟩
      simp only [List.append_assoc]

theorem inline (h : Spaced line []) : Inline line := by
  cases h with
  | nil blank => exact blank

theorem mem (h : Spaced line ws) (mem : c ∈ line) : c ∈ lineBlanks ∨ ∃ w ∈ ws, c ∈ w.text := by
  induction h with
  | nil blank => exact .inl (blank c mem)
  | @cons _ _ w _ blank _ ih =>
    simp only [List.mem_append] at mem
    rcases mem with own | own | rest
    · exact .inl (blank c own)
    · exact .inr ⟨w, List.mem_cons_self, own⟩
    · obtain own | ⟨v, hv, own⟩ := ih rest
      · exact .inl own
      · exact .inr ⟨v, List.mem_cons_of_mem _ hv, own⟩

theorem not_mem (h : Spaced line ws) (mark : c ∈ '\n' :: Word.chars)
    (apart : ∀ w ∈ ws, c ∉ w.text) : c ∉ line := by
  intro hc
  obtain blank | ⟨w, hw, own⟩ := h.mem hc
  · exact lineBlanks_not_mem c blank mark
  · exact apart w hw own

theorem feed (h : Spaced line ws) : '\n' ∉ line := by
  refine h.not_mem List.mem_cons_self fun w _ own => ?_
  exact wordChars_not_mem _ (Word.mem_chars own) List.mem_cons_self

theorem of_concat (blank : c ∈ lineBlanks) (h : Spaced (line ++ [c]) ws) : Spaced line ws := by
  generalize whole : line ++ [c] = text at h
  induction h generalizing line with
  | nil own =>
    subst whole
    exact .nil fun d hd => own d (List.mem_append_left _ hd)
  | @cons gap rest w ws own tail ih =>
    obtain rfl | ⟨rest, d, rfl⟩ := List.eq_nil_or_concat rest
    · -- A line that ends with a word does not end with a blank.
      obtain ⟨front, last, text⟩ := (List.eq_nil_or_concat w.text).resolve_left w.text_ne_nil
      rw [text, List.append_nil, List.concat_eq_append, ← List.append_assoc] at whole
      obtain ⟨-, same⟩ := List.append_inj' whole rfl
      have inside : c ∈ w.text := by
        rw [text, List.singleton_inj.1 same]
        simp
      exact absurd (Word.mem_chars inside) fun mem =>
        lineBlanks_not_mem c blank (List.mem_cons_of_mem _ mem)
    · rw [List.concat_eq_append] at whole ih
      have regroup : gap ++ (w.text ++ (rest ++ [d])) = gap ++ (w.text ++ rest) ++ [d] := by simp
      rw [regroup] at whole
      obtain ⟨rfl, same⟩ := List.append_inj' whole rfl
      rw [List.singleton_inj] at same
      exact .cons own (ih (by rw [same]))

theorem dropReturn (h : Spaced line ws) : Spaced (dropReturn line) ws := by
  unfold Text.dropReturn
  split
  · rename_i last
    obtain ⟨front, rfl⟩ := List.getLast?_eq_some_iff.1 (eq_of_beq last)
    rw [List.dropLast_concat]
    exact h.of_concat (by decide)
  · exact h

theorem hexTokens_eq (h : Spaced line ws) : hexTokens line = ws.filterMap Word.hex? := by
  induction h with
  | nil blank => exact hexTokens_eq_nil (blank.not_mem (by decide))
  | @cons gap line w ws blank _ ih =>
    have before : '<' ∉ gap := blank.not_mem (by decide)
    have other (text : List Char) (apart : '<' ∉ text) :
        hexTokens (gap ++ (text ++ line)) = ws.filterMap Word.hex? := by
      rw [← List.append_assoc, hexTokens_append (List.not_mem_append before apart), ih]
    cases w with
    | code hex =>
      have first := hexTokens_cons before (not_mem_digits hex.plain (by decide)) line
      rw [trimChars_of_inner (not_isBlank_of_digits hex.plain), ih] at first
      simpa [Word.text, Word.hex?] using first
    | number figure => exact other _ (not_mem_digits figure.plain (by decide))
    | opening => exact other _ (by decide)
    | closing => exact other _ (by decide)

theorem trailingNumber?_eq {hex : Digits} {figure : Figure}
    (h : Spaced line (ws ++ [.code hex, .number figure])) :
    trailingNumber? line = Numeral.parse? 10 greatest32 figure.chars := by
  obtain ⟨before, behind, rfl, -, rest⟩ := h.split
  cases rest with
  | @cons gap last _ _ blank back =>
    have ending : '>' ∉ gap ++ figure.chars ++ last := by
      refine List.not_mem_append (List.not_mem_append ?_ ?_) ?_
      · exact blank.not_mem (by decide)
      · exact not_mem_digits figure.plain (by decide)
      · exact back.inline.not_mem (by decide)
    have whole : before ++ ((Word.code hex).text ++ (gap ++ ((Word.number figure).text ++ last))) =
        (before ++ '<' :: hex.chars) ++ '>' :: (gap ++ figure.chars ++ last) := by
      simp [Word.text]
    have mark : '>' ∈ (before ++ '<' :: hex.chars) ++ '>' :: (gap ++ figure.chars ++ last) := by
      simp
    rw [whole, trailingNumber?, if_pos mark, afterLast_append _ ending,
      trimChars_append blank.isBlank back.inline.isBlank (not_isBlank_of_digits figure.plain)
        figure.ne_nil]

theorem cut_array {texts : List Digits}
    (h : Spaced line (ws ++ .opening :: (texts.map Word.code ++ [.closing])))
    (apart : ∀ w ∈ ws, '[' ∉ w.text) :
    ∃ front body inner, cut? ['['] line = some (front, body) ∧ Spaced front ws ∧
      beforeLast? ']' body = some inner ∧ Spaced inner (texts.map Word.code) := by
  obtain ⟨front, body, rfl, before, rest⟩ := h.split
  obtain ⟨inner, last, rfl, inside, behind⟩ := rest.split
  refine ⟨front, _, inner, cut?_mark (before.not_mem (by decide) apart) _, before, ?_, inside⟩
  exact beforeLast?_append inner (behind.inline.not_mem (by decide))

end Spaced

end PdfContent.CMap
