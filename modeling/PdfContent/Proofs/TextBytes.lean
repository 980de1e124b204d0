import Mathlib.Tactic.Common
import PdfContent.Text.Utf8

/-!
Text as bytes and back. The decoder of byte strings gives back every text from its UTF-8 form, so
texts with the same bytes are the same; a byte string is a UTF-8 form exactly when decoding it and
writing the text out changes nothing.
-/

namespace PdfContent

namespace Text.Utf8

theorem toNat_ofNat {n : Nat} (h : n < 256) : (UInt8.ofNat n).toNat = n := by
  rw [UInt8.toNat_ofNat']
  exact Nat.mod_eq_of_lt h

theorem isContinuation_iff (b : UInt8) :
    isContinuation b = true ↔ 0x80 ≤ b.toNat ∧ b.toNat ≤ 0xBF := by
  simp [isContinuation, UInt8.le_iff_toNat_le]

theorem isContinuation_ofNat {n : Nat} (h : n < 64) : isContinuation (UInt8.ofNat (n + 128)) := by
  rw [isContinuation_iff, toNat_ofNat (by omega)]
  omega

theorem continuationBits_ofNat {n : Nat} (h : n < 64) :
    continuationBits (UInt8.ofNat (n + 128)) = n := by
  have hn : (UInt8.ofNat (n + 128)).toNat = n + 128 := toNat_ofNat (by omega)
  unfold continuationBits
  omega

theorem tailLength?_eq (lead : UInt8) :
    tailLength? lead =
      if lead.toNat < 0x80 then some 0
      else if 0xC2 ≤ lead.toNat ∧ lead.toNat ≤ 0xDF then some 1
      else if 0xE0 ≤ lead.toNat ∧ lead.toNat ≤ 0xEF then some 2
      else if 0xF0 ≤ lead.toNat ∧ lead.toNat ≤ 0xF4 then some 3
      else none := by
  simp [tailLength?, UInt8.lt_iff_toNat_lt, UInt8.le_iff_toNat_le]

theorem secondFits_iff (lead second : UInt8) :
    secondFits lead second = true ↔
      (if lead.toNat = 0xE0 then 0xA0 ≤ second.toNat ∧ second.toNat ≤ 0xBF
      else if lead.toNat = 0xED then 0x80 ≤ second.toNat ∧ second.toNat ≤ 0x9F
      else if lead.toNat = 0xF0 then 0x90 ≤ second.toNat ∧ second.toNat ≤ 0xBF
      else if lead.toNat = 0xF4 then 0x80 ≤ second.toNat ∧ second.toNat ≤ 0x8F
      else 0x80 ≤ second.toNat ∧ second.toNat ≤ 0xBF) := by
  simp only [secondFits, beq_iff_eq, ← UInt8.toNat_inj]
  split_ifs <;> simp_all [UInt8.le_iff_toNat_le, isContinuation_iff]

theorem decodeHead_one {a : Nat} (h : a < 128) (s : Bytes) :
    decodeHead (UInt8.ofNat a) s = (Char.ofNat a, 0) := by
  have ht : tailLength? (UInt8.ofNat a) = some 0 := by
    rw [tailLength?_eq, toNat_ofNat (by omega), if_pos h]
  unfold decodeHead
  rw [ht, Byte.toChar, toNat_ofNat (by omega)]
  cases s <;> rfl

theorem decodeHead_two {a b : Nat} (ha : 2 ≤ a) (ha' : a < 32) (hb : b < 64) (s : Bytes) :
    decodeHead (UInt8.ofNat (a + 192)) (UInt8.ofNat (b + 128) :: s) =
      (Char.ofNat (a * 64 + b), 1) := by
  have ht : tailLength? (UInt8.ofNat (a + 192)) = some 1 := by
    rw [tailLength?_eq, toNat_ofNat (by omega), if_neg (by omega), if_pos (by omega)]
  have hn : (UInt8.ofNat (a + 192)).toNat = a + 192 := toNat_ofNat (by omega)
  simp only [decodeHead, ht, isContinuation_ofNat hb, if_true, continuationBits_ofNat hb, hn]
  rw [Nat.add_sub_cancel]

theorem decodeHead_three {a b c : Nat} (ha : a < 16) (hb : b < 64) (hc : c < 64)
    (shortest : a = 0 → 32 ≤ b) (scalar : a = 13 → b < 32) (s : Bytes) :
    decodeHead (UInt8.ofNat (a + 224)) (UInt8.ofNat (b + 128) :: UInt8.ofNat (c + 128) :: s) =
      (Char.ofNat ((a * 64 + b) * 64 + c), 2) := by
  have ht : tailLength? (UInt8.ofNat (a + 224)) = some 2 := by
    rw [tailLength?_eq, toNat_ofNat (by omega), if_neg (by omega), if_neg (by omega),
      if_pos (by omega)]
  have hs : secondFits (UInt8.ofNat (a + 224)) (UInt8.ofNat (b + 128)) := by
    rw [secondFits_iff, toNat_ofNat (by omega), toNat_ofNat (by omega)]
    split_ifs <;> omega
  have hn : (UInt8.ofNat (a + 224)).toNat = a + 224 := toNat_ofNat (by omega)
  simp only [decodeHead, ht, hs, isContinuation_ofNat hc, if_true, continuationBits_ofNat hb,
    continuationBits_ofNat hc, hn]
  rw [Nat.add_sub_cancel]

theorem decodeHead_four {a b c d : Nat} (ha : a < 5) (hb : b < 64) (hc : c < 64) (hd : d < 64)
    (shortest : a = 0 → 16 ≤ b) (bounded : a = 4 → b < 16) (s : Bytes) :
    decodeHead (UInt8.ofNat (a + 240))
        (UInt8.ofNat (b + 128) :: UInt8.ofNat (c + 128) :: UInt8.ofNat (d + 128) :: s) =
      (Char.ofNat (((a * 64 + b) * 64 + c) * 64 + d), 3) := by
  have ht : tailLength? (UInt8.ofNat (a + 240)) = some 3 := by
    rw [tailLength?_eq, toNat_ofNat (by omega), if_neg (by omega), if_neg (by omega),
      if_neg (by omega), if_pos (by omega)]
  have hs : secondFits (UInt8.ofNat (a + 240)) (UInt8.ofNat (b + 128)) := by
    rw [secondFits_iff, toNat_ofNat (by omega), toNat_ofNat (by omega)]
    split_ifs <;> omega
  have hn : (UInt8.ofNat (a + 240)).toNat = a + 240 := toNat_ofNat (by omega)
  simp only [decodeHead, ht, hs, isContinuation_ofNat hc, isContinuation_ofNat hd, if_true,
    continuationBits_ofNat hb, continuationBits_ofNat hc, continuationBits_ofNat hd, hn]
  rw [Nat.add_sub_cancel]

theorem toNat_scalar (c : Char) :
    c.toNat < 0x110000 ∧ ¬ (0xD800 ≤ c.toNat ∧ c.toNat ≤ 0xDFFF) := by
  have := c.valid
  simp only [UInt32.isValidChar, Nat.isValidChar] at this
  change c.val.toNat < _ ∧ ¬ (_ ≤ c.val.toNat ∧ c.val.toNat ≤ _)
  omega

theorem lead_of_tailLength? {lead : UInt8} {n : Nat} (h : tailLength? lead = some n) :
    n = 0 ∨ n = 1 ∧ 0xC2 ≤ lead.toNat ∨ n = 2 ∧ 0xE0 ≤ lead.toNat ∨ n = 3 ∧ 0xF0 ≤ lead.toNat := by
  rw [tailLength?_eq] at h
  split_ifs at h <;> grind

theorem continuationBits_of_fits {lead second : UInt8} (fits : secondFits lead second = true)
    (least : lead.toNat = 0xE0 ∨ lead.toNat = 0xF0) : 16 ≤ continuationBits second := by
  rw [secondFits_iff] at fits
  unfold continuationBits
  split_ifs at fits <;> omega

theorem decodeHead_char (lead : UInt8) (s : Bytes) :
    (decodeHead lead s).1 = Byte.toChar lead ∨ (decodeHead lead s).1 = replacement ∨
      ∃ n, 128 ≤ n ∧ (decodeHead lead s).1 = Char.ofNat n := by
  fun_cases decodeHead lead s <;> dsimp only
  case case1 => exact .inl rfl
  case case2 second _ long _ =>
    have := lead_of_tailLength? long
    exact .inr (.inr ⟨_, by omega, rfl⟩)
  case case4 second long fits third _ _ =>
    have := lead_of_tailLength? long
    have := continuationBits_of_fits fits
    exact .inr (.inr ⟨_, by omega, rfl⟩)
  case case8 n second zero one two long fits third _ fourth _ _ =>
    have least : 0xF0 ≤ lead.toNat := by
      rcases lead_of_tailLength? long with h | ⟨h, -⟩ | ⟨h, -⟩ | ⟨-, le⟩
      exacts [(zero h).elim, (one h).elim, (two h).elim, le]
    have := continuationBits_of_fits fits
    exact .inr (.inr ⟨_, by omega, rfl⟩)
  all_goals exact .inr (.inl rfl)

theorem decode_cons (b : UInt8) (s : Bytes) :
    decode (b :: s) = (decodeHead b s).1 :: decode (s.drop (decodeHead b s).2) := by
  rw [decode]

theorem decode_utf8EncodeChar (c : Char) (s : Bytes) :
    decode (String.utf8EncodeChar c ++ s) = c :: decode s := by
  obtain ⟨hlt, hscalar⟩ := toNat_scalar c
  have back {n : Nat} (h : n = c.toNat) : Char.ofNat n = c := by rw [h, Char.ofNat_toNat]
  have hv : c.val.toNat = c.toNat := rfl
  simp only [String.utf8EncodeChar, hv]
  split_ifs with h₁ h₂ h₃
  · rw [List.cons_append, decode_cons, decodeHead_one (by omega), back rfl]
    rfl
  · rw [List.cons_append, decode_cons, List.cons_append,
      decodeHead_two (by omega) (by omega) (by omega), back (by omega)]
    rfl
  · rw [List.cons_append, decode_cons, List.cons_append, List.cons_append,
      decodeHead_three (by omega) (by omega) (by omega) (by omega) (by omega), back (by omega)]
    rfl
  · rw [List.cons_append, decode_cons, List.cons_append, List.cons_append, List.cons_append,
      decodeHead_four (by omega) (by omega) (by omega) (by omega) (by omega) (by omega),
      back (by omega)]
    rfl

theorem decode_flatMap_utf8EncodeChar (cs : List Char) :
    decode (cs.flatMap String.utf8EncodeChar) = cs := by
  induction cs with
  | nil => simp [decode]
  | cons c cs ih => rw [List.flatMap_cons, decode_utf8EncodeChar, ih]

end Text.Utf8

namespace Bytes

@[simp]
theorem toText_ofUtf8 (s : String) : (ofUtf8 s).toText = s := by
  rw [toText, ofUtf8, Text.Utf8.decode_flatMap_utf8EncodeChar, String.ofList_toList]

theorem ofUtf8_injective : Function.Injective ofUtf8 := by
  intro s t h
  have := congrArg toText h
  rwa [toText_ofUtf8, toText_ofUtf8] at this

theorem toText_inj {s t : Bytes} (hs : ∃ text, ofUtf8 text = s) (ht : ∃ text, ofUtf8 text = t) :
    s.toText = t.toText ↔ s = t := by
  obtain ⟨text, rfl⟩ := hs
  obtain ⟨text', rfl⟩ := ht
  rw [toText_ofUtf8, toText_ofUtf8]
  exact ofUtf8_injective.eq_iff.symm

theorem ofUtf8_toText_eq_iff (s : Bytes) : ofUtf8 s.toText = s ↔ ∃ text, ofUtf8 text = s := by
  constructor
  · intro h
    exact ⟨_, h⟩
  · rintro ⟨text, rfl⟩
    rw [toText_ofUtf8]

end Bytes

end PdfContent
