import Mathlib
import PdfContent.Operand
import PdfContent.Number.Numeral

/-!
Doubles as numbers. A finite double is a mantissa under a power of two, with a sign. Conversion to
an unsigned integer cuts its fraction off and holds the rest in range. It counts as an integer only
if there is no fraction to cut off.
-/

namespace PdfContent.Double

open Float.Model UnpackedFloat

/-- The number that a double stands for, none if it is infinite or no number. -/
def value? (x : Float) : Option ℚ :=
  match x.toModel.unpack with
  | .zero _ => some 0
  | .finite sign mantissa exponent _ => some (sign.apply mantissa * 2 ^ exponent)
  | _ => none

def isTop (x : Float) : Bool :=
  match x.toModel.unpack with
  | .infinity .positive => true
  | _ => false

theorem mantissa_shiftRight (em : ExtendedMantissa) (n : ℕ) :
    (em >>> n).mantissa = em.mantissa / 2 ^ n := by
  change (n.repeat ExtendedMantissa.shiftRightOne em).mantissa = _
  induction n with
  | zero => simp [Nat.repeat]
  | succ n ih =>
    rw [Nat.repeat, pow_succ, ← Nat.div_div_eq_div_mul, ← ih]
    rfl

theorem dyadic_eq_div (m : ℕ) (e : ℤ) :
    (m : ℚ) * 2 ^ e = ((m * 2 ^ e.toNat : ℕ) : ℚ) / ((2 ^ (-e).toNat : ℕ) : ℚ) := by
  obtain ⟨k, rfl | rfl⟩ := e.eq_nat_or_neg
  · simp
  · simp [div_eq_mul_inv]

theorem floor_dyadic (m : ℕ) (e : ℤ) :
    ⌊(m : ℚ) * 2 ^ e⌋₊ = m * 2 ^ e.toNat / 2 ^ (-e).toNat := by
  rw [dyadic_eq_div, Nat.floor_div_eq_div]

theorem roundToInt_eq (sign : Sign) (m : ℕ) (e : ℤ) :
    roundToInt sign m e = sign.apply ⌊(m : ℚ) * 2 ^ e⌋₊ := by
  have amount : (0 - (e - ((e - 0).toNat : ℤ))).toNat = (-e).toNat := by omega
  have mantissa : (ExtendedMantissa.ofMantissaAndAccuracy (m <<< (e - 0).toNat) .exact >>>
      (0 - (e - ((e - 0).toNat : ℤ))).toNat).mantissa = ⌊(m : ℚ) * 2 ^ e⌋₊ := by
    rw [mantissa_shiftRight, amount, floor_dyadic, Int.sub_zero, ← Nat.shiftLeft_eq]
    rfl
  exact congrArg (fun n : ℕ => sign.apply n) mantissa

theorem toNat_ofNatClamp (n : ℕ) : (UInt32.ofNatClamp n).toNat = min n Numeral.greatest32 := by
  unfold UInt32.ofNatClamp
  split
  · next small => exact (min_eq_left (Nat.le_of_lt_succ small)).symm
  · next large => exact (min_eq_right (Nat.le_of_succ_le (Nat.le_of_not_lt large))).symm

theorem wholeMantissa?_eq_some_iff {m n : ℕ} {e : ℤ} :
    wholeMantissa? m e = some n ↔ (m : ℚ) * 2 ^ e = n := by
  have divisor : 0 < 2 ^ (-e).toNat := by positivity
  rw [dyadic_eq_div, div_eq_iff (by positivity)]
  norm_cast
  unfold wholeMantissa?
  split
  · next up =>
    rw [Int.toNat_eq_zero.2 (show -e ≤ 0 by omega), Option.some_inj, Nat.shiftLeft_eq, pow_zero,
      mul_one]
  · next down =>
    rw [Int.toNat_eq_zero.2 (show e ≤ 0 by omega), pow_zero, mul_one]
    simp only [Nat.shiftLeft_eq, Nat.shiftRight_eq_div_pow, beq_iff_eq,
      Option.ite_none_right_eq_some, Option.some_inj]
    constructor
    · rintro ⟨whole, rfl⟩
      exact whole.symm
    · rintro rfl
      exact ⟨by rw [Nat.mul_div_cancel _ divisor], Nat.mul_div_cancel _ divisor⟩

theorem unsigned32?_eq_some_iff {i : ℤ} {n : ℕ} :
    Numeral.unsigned32? i = some n ↔ i = n ∧ n ≤ Numeral.greatest32 := by
  unfold Numeral.unsigned32?
  simp only [Bool.and_eq_true, decide_eq_true_eq, Option.ite_none_right_eq_some, Option.some_inj]
  omega

theorem unsigned32?_clamp (i : ℤ) :
    Numeral.unsigned32? (max Decimal.int64Min (min i Decimal.int64Max)) =
      Numeral.unsigned32? i := by
  ext n
  simp only [unsigned32?_eq_some_iff, Numeral.greatest32, Decimal.int64Min, Decimal.int64Max]
  omega

theorem unsigned32?_wholeNumber?_eq_some_iff {x : Float} {n : ℕ} :
    (wholeNumber? x).bind Numeral.unsigned32? = some n ↔
      value? x = some (n : ℚ) ∧ n ≤ Numeral.greatest32 := by
  unfold wholeNumber? value?
  cases x.toModel.unpack with
  | infinity sign => simp
  | notANumber => simp
  | zero sign =>
    simp only [Option.bind_some, unsigned32?_eq_some_iff, Option.some_inj]
    norm_cast
  | finite sign m e pos =>
    simp only [Option.bind_map, Option.bind_eq_some_iff, Function.comp_apply, unsigned32?_clamp,
      unsigned32?_eq_some_iff, wholeMantissa?_eq_some_iff, Option.some_inj]
    have large : 0 < (m : ℚ) * 2 ^ e := mul_pos (Nat.cast_pos.2 pos) (by positivity)
    cases sign with
    | positive =>
      simp only [Sign.apply, Int.cast_natCast, Nat.cast_inj]
      constructor
      · rintro ⟨k, whole, rfl, small⟩
        exact ⟨whole, small⟩
      · rintro ⟨whole, small⟩
        exact ⟨n, whole, rfl, small⟩
    | negative =>
      simp only [Sign.apply, Int.cast_neg, Int.cast_natCast, neg_mul]
      constructor
      · rintro ⟨k, whole, same, -⟩
        rw [whole] at large
        have : 0 < k := by exact_mod_cast large
        omega
      · rintro ⟨whole, -⟩
        have : (0 : ℚ) ≤ n := n.cast_nonneg
        linarith

theorem toNat_toUInt32_eq_toInt (x : Float) : x.toUInt32.toNat =
    min (x.toModel.unpack.toInt 0 Numeral.greatest32).toNat Numeral.greatest32 :=
  toNat_ofNatClamp _

theorem toNat_toUInt32 (x : Float) :
    x.toUInt32.toNat = if isTop x then Numeral.greatest32
      else min ⌊(value? x).getD 0⌋₊ Numeral.greatest32 := by
  rw [toNat_toUInt32_eq_toInt]
  unfold value? isTop
  cases x.toModel.unpack with
  | infinity sign => cases sign <;> simp [UnpackedFloat.toInt, Numeral.greatest32]
  | notANumber => simp [UnpackedFloat.toInt]
  | zero sign => simp [UnpackedFloat.toInt]
  | finite sign m e pos =>
    have large : 0 ≤ (m : ℚ) * 2 ^ e := by positivity
    simp only [Bool.false_eq_true, if_false, Option.getD_some, UnpackedFloat.toInt, roundToInt_eq]
    cases sign with
    | positive => simp [Sign.apply]
    | negative =>
      simp only [Sign.apply, Int.cast_neg, Int.cast_natCast, neg_mul]
      rw [Nat.floor_of_nonpos (neg_nonpos.2 large), Int.toNat_eq_zero.2 (by omega)]

end PdfContent.Double
