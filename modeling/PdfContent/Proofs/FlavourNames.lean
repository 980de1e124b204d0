import PdfContent.Flavour
import PdfContent.Proofs.TextPieces

/-!
Names of flavours. Without its blanks and in lower case, a text names a flavour when behind one of
the prefixes, or none, stand the digit of its part and the letter of its level. A digit starts what
stands behind a prefix, so no longer prefix hides a shorter one.
-/

namespace PdfContent

namespace Text

theorem toNat_toLower (c : Char) :
    c.toLower.toNat = if 65 ≤ c.toNat ∧ c.toNat ≤ 90 then c.toNat + 32 else c.toNat := by
  have capital : (c.val ≥ 'A'.val ∧ c.val ≤ 'Z'.val) ↔ 65 ≤ c.toNat ∧ c.toNat ≤ 90 := Iff.rfl
  unfold Char.toLower
  by_cases h : 65 ≤ c.toNat ∧ c.toNat ≤ 90
  · rw [dif_pos (capital.2 h), if_pos h]
    have shift : ('a'.val - 'A'.val).toNat = 32 := by decide
    have sum : (c.val + ('a'.val - 'A'.val)).toNat = (c.toNat + 32) % 2 ^ 32 := by
      rw [UInt32.toNat_add, shift]
      rfl
    rw [Nat.mod_eq_of_lt (by omega)] at sum
    exact sum
  · rw [dif_neg (mt capital.1 h), if_neg h]

theorem isBlank_toLower (c : Char) : isBlank c.toLower = isBlank c := by
  simp only [isBlank, toNat_toLower]
  split_ifs with capital
  · -- No letter is blank, of either case.
    grind
  · rfl

theorem trimStartChars_map_toLower (cs : List Char) :
    trimStartChars (cs.map Char.toLower) = (trimStartChars cs).map Char.toLower := by
  have same : isBlank ∘ Char.toLower = isBlank := funext isBlank_toLower
  rw [trimStartChars, List.dropWhile_map, same, trimStartChars]

theorem trimEndChars_map_toLower (cs : List Char) :
    trimEndChars (cs.map Char.toLower) = (trimEndChars cs).map Char.toLower := by
  have start := trimStartChars_map_toLower cs.reverse
  rw [trimStartChars, trimStartChars] at start
  rw [trimEndChars, ← List.map_reverse, start, ← List.map_reverse, trimEndChars]

theorem trimChars_map_toLower (cs : List Char) :
    trimChars (cs.map Char.toLower) = (trimChars cs).map Char.toLower := by
  rw [trimChars, trimStartChars_map_toLower, trimEndChars_map_toLower, trimChars]

end Text

def Conformance.suffix (c : Conformance) : List Char := c.letter.toList.map Char.toLower

theorem Conformance.ofSuffix?_eq_some_iff {cs : List Char} {c : Conformance} :
    ofSuffix? cs = some c ↔ cs = c.suffix := by
  constructor
  · intro h
    unfold ofSuffix? at h
    split at h <;> cases h <;> rfl
  · rintro rfl
    cases c <;> rfl

namespace Flavour

open Text

variable {f : Flavour} {s t : String} {cs : List Char}

def all : List Flavour :=
  [1, 2, 3, 4].flatMap fun part => (Conformance.ofPart part).map fun level => ⟨part, level⟩

def body (f : Flavour) : List Char := Nat.digitChar f.part :: f.conformance.suffix

theorem make?_eq_some_iff {part : Nat} {level : Conformance} :
    make? part level = some f ↔ level ∈ Conformance.ofPart part ∧ f = ⟨part, level⟩ := by
  unfold make?
  split_ifs with h <;> simp [h, eq_comm]

theorem mem_all : f ∈ all ↔ make? f.part f.conformance = some f := by
  rw [make?_eq_some_iff, all, List.mem_flatMap]
  constructor
  · rintro ⟨part, -, mem⟩
    obtain ⟨level, known, rfl⟩ := List.mem_map.1 mem
    exact ⟨known, rfl⟩
  · rintro ⟨known, -⟩
    refine ⟨f.part, ?_, List.mem_map_of_mem known⟩
    -- No other part has levels.
    unfold Conformance.ofPart at known
    split at known <;> simp_all

theorem digitChar_of_isDigit {digit : Char} (h : ('0' ≤ digit && digit ≤ '9') = true) :
    Nat.digitChar (digit.toNat - '0'.toNat) = digit := by
  rw [Bool.and_eq_true, decide_eq_true_eq, decide_eq_true_eq] at h
  have figure : 48 ≤ digit.toNat ∧ digit.toNat ≤ 57 := h
  have small : digit.toNat - 48 < 10 := by omega
  apply Char.toNat_inj.1
  exact (Nat.toNat_digitChar_of_lt_ten small).trans (Nat.add_sub_of_le figure.1)

theorem ofBody?_eq_some_iff : ofBody? cs = some f ↔ f ∈ all ∧ cs = f.body := by
  constructor
  · intro h
    cases cs with
    | nil => cases h
    | cons digit suffix =>
      rw [ofBody?] at h
      split_ifs at h with isDigit
      obtain ⟨level, read, made⟩ := Option.bind_eq_some_iff.1 h
      obtain rfl := Conformance.ofSuffix?_eq_some_iff.1 read
      obtain ⟨known, rfl⟩ := make?_eq_some_iff.1 made
      exact ⟨mem_all.2 made, congrArg (· :: level.suffix) (digitChar_of_isDigit isDigit).symm⟩
  · rintro ⟨known, rfl⟩
    have read : ∀ f ∈ all, ofBody? f.body = some f := by decide
    exact read f known

theorem exists_dropPrefix (cs : List Char) :
    ∃ pre ∈ [] :: prefixes, cs = pre ++ dropPrefix cs := by
  cases found : prefixes.find? fun p => p.isPrefixOf cs with
  | none => exact ⟨[], List.mem_cons_self .., by rw [dropPrefix, found]; rfl⟩
  | some pre =>
    have starts : pre <+: cs := by simpa using List.find?_some found
    refine ⟨pre, List.mem_cons_of_mem _ (List.mem_of_find?_eq_some found), ?_⟩
    rw [dropPrefix, found]
    exact List.prefix_iff_eq_append.1 starts |>.symm

theorem dropPrefix_body (known : f ∈ all) :
    ∀ pre ∈ [] :: prefixes, dropPrefix (pre ++ f.body) = f.body := by
  have each : ∀ f ∈ all, ∀ pre ∈ [] :: prefixes, dropPrefix (pre ++ f.body) = f.body := by decide
  exact each f known

theorem dropPrefix_eq_body_iff (known : f ∈ all) :
    dropPrefix cs = f.body ↔ ∃ pre ∈ [] :: prefixes, cs = pre ++ f.body := by
  constructor
  · intro h
    rw [← h]
    exact exists_dropPrefix cs
  · rintro ⟨pre, mem, rfl⟩
    exact dropPrefix_body known pre mem

theorem parse_eq_ok_iff_ofBody? :
    parse s = .ok f ↔ ofBody? (dropPrefix ((trimChars s.toList).map Char.toLower)) = some f := by
  unfold parse
  cases ofBody? (dropPrefix ((trimChars s.toList).map Char.toLower)) <;> simp

theorem parse_eq_ok_iff :
    parse s = .ok f ↔ f ∈ all ∧ ∃ core, Trims s.toList core ∧
      ∃ pre ∈ [] :: prefixes, core.map Char.toLower = pre ++ f.body := by
  rw [parse_eq_ok_iff_ofBody?, ofBody?_eq_some_iff]
  simp only [trims_iff, exists_eq_left']
  exact and_congr_right dropPrefix_eq_body_iff

theorem parse_congr (h : (trimChars t.toList).map Char.toLower =
    (trimChars s.toList).map Char.toLower) (f : Flavour) :
    parse t = .ok f ↔ parse s = .ok f := by
  rw [parse_eq_ok_iff_ofBody?, parse_eq_ok_iff_ofBody?, h]

theorem parse_text (known : f ∈ all) : parse f.text = .ok f := by
  have each : ∀ f ∈ all, parse f.text = .ok f := by decide +kernel
  exact each f known

/-- A text is read as a flavour just when it is a name of it up to case and the blanks around it. So
the text that a flavour is written as is read back, and neither case nor blanks make a
difference. -/
theorem parse_names (s : String) :
    (∀ f, parse s = .ok f ↔ make? f.part f.conformance = some f ∧
      ∃ core, Trims s.toList core ∧
        ∃ pre ∈ [] :: prefixes, core.map Char.toLower = pre ++ f.body) ∧
    (∀ f, parse s = .ok f → parse f.text = .ok f) ∧
    (∀ t : String, t.toList.map Char.toLower = s.toList.map Char.toLower →
      ∀ f, parse t = .ok f ↔ parse s = .ok f) ∧
    ∀ (t : String) (core : List Char), Trims s.toList core → Trims t.toList core →
      ∀ f, parse t = .ok f ↔ parse s = .ok f := by
  refine ⟨?_, ?_, ?_, ?_⟩
  · intro f
    rw [parse_eq_ok_iff, mem_all]
  · exact fun f h => parse_text (parse_eq_ok_iff.1 h).1
  · intro t same
    apply parse_congr
    rw [← trimChars_map_toLower, same, trimChars_map_toLower]
  · intro t core own other
    apply parse_congr
    rw [own.eq, other.eq]

theorem parse_names_shortPrefix :
    parse " PDFA4f" = .ok ⟨4, .f⟩ ∧ parse (text ⟨4, .f⟩) = .ok ⟨4, .f⟩ ∧
      parse " pdfa4F" = .ok ⟨4, .f⟩ ∧ parse "PDFA4f\n" = .ok ⟨4, .f⟩ := by
  have read : parse " PDFA4f" = .ok ⟨4, .f⟩ := by decide +kernel
  have before : Trims " PDFA4f".toList "PDFA4f".toList := trims_iff.2 (by decide +kernel)
  have behind : Trims "PDFA4f\n".toList "PDFA4f".toList := trims_iff.2 (by decide +kernel)
  obtain ⟨-, written, cased, spaced⟩ := parse_names " PDFA4f"
  exact ⟨read, written _ read, (cased " pdfa4F" (by decide +kernel) _).2 read,
    (spaced "PDFA4f\n" _ before behind _).2 read⟩

end Flavour

end PdfContent
