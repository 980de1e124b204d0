import PdfContent.Font.CMap.Entry
import PdfContent.Proofs.TextBytes

/-!
Text in UTF-16. A character below U+10000 is one unit, any other one a high and a low surrogate;
what is written so is read back, and so are the units of bytes in big-endian order.
-/

namespace PdfContent.Text.Utf16

def unitsOf (c : Char) : List Nat :=
  if c.toNat < 0x10000 then [c.toNat]
  else [0xD800 + (c.toNat - 0x10000) / 0x400, 0xDC00 + (c.toNat - 0x10000) % 0x400]

def encode (text : List Char) : List Nat := text.flatMap unitsOf

theorem decode?_cons_of_scalar {u : Nat} (high : isHigh u = false) (low : isLow u = false)
    (rest : List Nat) : decode? (u :: rest) = (decode? rest).map (Char.ofNat u :: ·) := by
  cases rest <;> simp [decode?, high, low]

theorem decode?_unitsOf (c : Char) (rest : List Nat) :
    decode? (unitsOf c ++ rest) = (decode? rest).map (c :: ·) := by
  obtain ⟨bounded, scalar⟩ := Utf8.toNat_scalar c
  by_cases hc : c.toNat < 0x10000
  · have high : isHigh c.toNat = false := by
      simp only [isHigh, Bool.and_eq_false_iff, decide_eq_false_iff_not]
      omega
    have low : isLow c.toNat = false := by
      simp only [isLow, Bool.and_eq_false_iff, decide_eq_false_iff_not]
      omega
    simp only [unitsOf, hc, if_true, List.cons_append, List.nil_append]
    rw [decode?_cons_of_scalar high low, Char.ofNat_toNat]
  · have high : isHigh (0xD800 + (c.toNat - 0x10000) / 0x400) = true := by
      simp only [isHigh, Bool.and_eq_true, decide_eq_true_eq]
      omega
    have low : isLow (0xDC00 + (c.toNat - 0x10000) % 0x400) = true := by
      simp only [isLow, Bool.and_eq_true, decide_eq_true_eq]
      omega
    have hpair : pair (0xD800 + (c.toNat - 0x10000) / 0x400)
        (0xDC00 + (c.toNat - 0x10000) % 0x400) = c := by
      have hn : 0x10000 + (0xD800 + (c.toNat - 0x10000) / 0x400 - 0xD800) * 0x400 +
          (0xDC00 + (c.toNat - 0x10000) % 0x400 - 0xDC00) = c.toNat := by
        omega
      rw [pair, hn, Char.ofNat_toNat]
    simp only [unitsOf, hc, if_false, List.cons_append, List.nil_append, decode?, high, low,
      if_true, hpair]

theorem decode?_encode (text : List Char) : decode? (encode text) = some text := by
  induction text with
  | nil => rfl
  | cons c text ih =>
    have split : encode (c :: text) = unitsOf c ++ encode text := List.flatMap_cons
    rw [split, decode?_unitsOf, ih, Option.map_some]

theorem lt_of_mem_encode {text : List Char} {u : Nat} (h : u ∈ encode text) : u < 0x10000 := by
  obtain ⟨c, -, hu⟩ := List.mem_flatMap.1 h
  obtain ⟨bounded, -⟩ := Utf8.toNat_scalar c
  by_cases hc : c.toNat < 0x10000
  · simp only [unitsOf, hc, if_true, List.mem_singleton] at hu
    omega
  · simp only [unitsOf, hc, if_false, List.mem_cons, List.not_mem_nil, or_false] at hu
    omega

def bytesOf (u : Nat) : Bytes := [UInt8.ofNat (u / 256), UInt8.ofNat (u % 256)]

def bytes (text : List Char) : Bytes := (encode text).flatMap bytesOf

theorem units_flatMap_bytesOf {us : List Nat} (h : ∀ u ∈ us, u < 0x10000) :
    CMap.units (us.flatMap bytesOf) = us := by
  induction us with
  | nil => rfl
  | cons u us ih =>
    have hu : u < 0x10000 := h u (List.mem_cons_self ..)
    have whole : (UInt8.ofNat (u / 256)).toNat * 256 + (UInt8.ofNat (u % 256)).toNat = u := by
      rw [Utf8.toNat_ofNat (by omega), Utf8.toNat_ofNat (by omega)]
      omega
    have tail : CMap.units (us.flatMap bytesOf) = us :=
      ih fun u hu => h u (List.mem_cons_of_mem _ hu)
    simp only [List.flatMap_cons, bytesOf, List.cons_append, List.nil_append, CMap.units]
    rw [whole]
    exact congrArg _ tail

theorem units_bytes (text : List Char) : CMap.units (bytes text) = encode text :=
  units_flatMap_bytesOf fun _ => lt_of_mem_encode

theorem length_bytes (text : List Char) : (bytes text).length = 2 * (encode text).length := by
  unfold bytes
  induction encode text with
  | nil => rfl
  | cons u us ih =>
    simp only [List.flatMap_cons, List.length_append, ih, List.length_cons, bytesOf,
      List.length_nil]
    omega

end PdfContent.Text.Utf16
