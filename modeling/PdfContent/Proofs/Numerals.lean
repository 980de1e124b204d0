import PdfContent.Proofs.CMapNotation

/-!
Which texts are numerals. Besides the digits of a number a plus sign in front of them is accepted,
once; every other text, and every number above the greatest one, is refused.
-/

namespace PdfContent.Numeral

variable {radix greatest value n d : Nat} {c : Char} {cs : List Char}

def SpellsSigned (radix : Nat) (cs : List Char) (n : Nat) : Prop :=
  Spells radix cs n ∨ ∃ digits, cs = '+' :: digits ∧ Spells radix digits n

theorem isDigit_of_digitValue? (h : digitValue? radix c = some d) : IsDigit radix c d := by
  have decimal : ∀ k < 10, Char.ofNat (0x30 + k) = k.digitChar := by decide
  have lower : ∀ k < 6, Char.ofNat (0x61 + k) = (k + 10).digitChar := by decide
  have upper : ∀ k < 6, Char.ofNat (0x41 + k) = (k + 10).digitChar.toUpper := by decide
  obtain ⟨found, small⟩ := Option.filter_eq_some_iff.1 h
  refine ⟨by simpa using small, ?_⟩
  -- Each range of characters starts at the number that is subtracted from it.
  have back : ∀ first, first ≤ c.toNat → Char.ofNat (first + (c.toNat - first)) = c := by
    intro first low
    rw [Nat.add_sub_cancel' low, Char.ofNat_toNat]
  simp only [Bool.and_eq_true, decide_eq_true_eq, Char.le_def, UInt32.le_iff_toNat_le] at found
  split_ifs at found with h₁ h₂ h₃
  · obtain rfl := Option.some.inj found
    have low : 0x30 ≤ c.toNat := h₁.1
    have high : c.toNat ≤ 0x39 := h₁.2
    exact .inl ((back 0x30 low).symm.trans (decimal _ (by omega)))
  · obtain rfl := Option.some.inj found
    have low : 0x61 ≤ c.toNat := h₂.1
    have high : c.toNat ≤ 0x66 := h₂.2
    exact .inl ((back 0x61 low).symm.trans (lower _ (by omega)))
  · obtain rfl := Option.some.inj found
    have low : 0x41 ≤ c.toNat := h₃.1
    have high : c.toNat ≤ 0x46 := h₃.2
    exact .inr ((back 0x41 low).symm.trans (upper _ (by omega)))

theorem digits_of_extend (h : extend radix greatest value cs = .ok n) (le : value ≤ greatest) :
    ∃ digits, List.Forall₂ (IsDigit radix) cs digits ∧
      digits.foldl (fun v d => v * radix + d) value = n ∧ n ≤ greatest := by
  induction cs generalizing value with
  | nil =>
    obtain rfl := Except.ok.inj h
    exact ⟨[], .nil, rfl, le⟩
  | cons c cs ih =>
    cases read : digitValue? radix c with
    | none => simp [extend, read] at h
    | some d =>
      simp only [extend, read] at h
      split at h
      · next small =>
        obtain ⟨digits, own, total, bound⟩ := ih h small
        exact ⟨d :: digits, .cons (isDigit_of_digitValue? read) own, total, bound⟩
      · cases h

theorem spells_of_extend (h : extend radix greatest 0 cs = .ok n) (ne : cs ≠ []) :
    Spells radix cs n ∧ n ≤ greatest := by
  obtain ⟨digits, own, total, bound⟩ := digits_of_extend h (Nat.zero_le _)
  exact ⟨⟨ne, digits, own, (ofDigits_reverse radix digits).trans total⟩, bound⟩

theorem parse_plus (ne : cs ≠ []) :
    parse radix greatest ('+' :: cs) = extend radix greatest 0 cs := by
  cases cs with
  | nil => exact absurd rfl ne
  | cons c cs => rfl

theorem parse_eq_ok_iff (radixLe : radix ≤ 16) :
    parse radix greatest cs = .ok n ↔ SpellsSigned radix cs n ∧ n ≤ greatest := by
  constructor
  · intro h
    match cs, h with
    | c :: cs, h =>
      by_cases plus : c = '+'
      · subst plus
        cases cs with
        | nil => cases h
        | cons c cs =>
          obtain ⟨spelled, le⟩ := spells_of_extend h (List.cons_ne_nil c cs)
          exact ⟨.inr ⟨_, rfl, spelled⟩, le⟩
      · rw [parse_cons plus] at h
        obtain ⟨spelled, le⟩ := spells_of_extend h (List.cons_ne_nil c cs)
        exact ⟨.inl spelled, le⟩
  · rintro ⟨spelled | ⟨digits, rfl, spelled⟩, le⟩
    · exact parse_of_spells spelled radixLe le
    · obtain ⟨ne, values, own, rfl⟩ := spelled
      rw [ofDigits_reverse] at le ⊢
      rw [parse_plus ne]
      exact extend_of_digits own radixLe 0 le

theorem parse?_eq_some_iff (radixLe : radix ≤ 16) :
    parse? radix greatest cs = some n ↔ SpellsSigned radix cs n ∧ n ≤ greatest := by
  rw [← parse_eq_ok_iff radixLe, parse?]
  cases parse radix greatest cs <;> simp [Except.toOption]

theorem SpellsSigned.mem (h : SpellsSigned radix cs n) (le : radix ≤ 16) :
    ∀ c ∈ cs, c = '+' ∨ c ∈ digitChars := by
  rcases h with spelled | ⟨digits, rfl, spelled⟩
  · exact fun c hc => .inr (spelled.mem le c hc)
  · exact List.forall_mem_cons.2 ⟨.inl rfl, fun c hc => .inr (spelled.mem le c hc)⟩

theorem SpellsSigned.spells (h : SpellsSigned radix cs n) (unsigned : '+' ∉ cs) :
    Spells radix cs n := by
  rcases h with spelled | ⟨digits, rfl, -⟩
  · exact spelled
  · exact absurd (List.mem_cons_self ..) unsigned

end PdfContent.Numeral
