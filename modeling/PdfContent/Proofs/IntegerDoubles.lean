import Mathlib
import PdfContent.Proofs.Doubles

/-!
Integers as doubles. An integer of at most 53 bits becomes a double as it is. A greater one is
rounded to 53 bits, and one that is too great becomes an infinity. Whichever it is, converting the
double to an unsigned integer gives what the integer itself is when it is held in range.
-/

namespace PdfContent.Double

open Float.Model UnpackedFloat

theorem two_pow_le_of_log2 {c : ℕ} (normal : c.log2 = 52) : 2 ^ 52 ≤ c ∧ c < 2 ^ 53 :=
  (Nat.log2_eq_iff (by rintro rfl; simp at normal)).1 normal

theorem append_implicit {c : ℕ} (normal : c.log2 = 52) :
    (1#1 ++ BitVec.ofNat 52 c).toNat = c := by
  have range := two_pow_le_of_log2 normal
  rw [BitVec.toNat_append, ← Nat.shiftLeft_add_eq_or_of_lt (BitVec.isLt _), BitVec.toNat_ofNat]
  simp only [BitVec.toNat_ofNat, Nat.shiftLeft_eq]
  omega

/-- What becomes of a mantissa of 53 bits, under an exponent that is not too low for it, when it is
stored as a double. The greatest exponent field that is left for numbers stands for 971. -/
def stored (sign : Sign) (c : ℕ) (e : ℤ) (pos : 0 < c) : UnpackedFloat :=
  if e ≤ 971 then .finite sign c e pos else .infinity sign

theorem unpack_pack_infinity (sign : Sign) :
    (Float.Model.pack (.infinity sign)).unpack = .infinity sign := by
  cases sign <;> rfl

theorem unpack_pack_normal (sign : Sign) {c : ℕ} {e : ℤ} (pos : 0 < c) (normal : c.log2 = 52)
    (low : -1074 ≤ e) : (Float.Model.pack (.finite sign c e pos)).unpack = stored sign c e pos := by
  change UnpackedFloat.unpack _ (UnpackedFloat.pack Format.binary64 _) = _
  by_cases fits : e ≤ 971
  · have few : ¬ 2 ^ 11 ≤ (e + 1023 + 52).toNat + 1 := by omega
    have packed : UnpackedFloat.pack Format.binary64 (.finite sign c e pos) =
        packComponents Format.binary64 sign (BitVec.ofNat 11 (e + 1023 + 52).toNat)
          (BitVec.ofNat 52 c) := by
      unfold UnpackedFloat.pack
      exact (if_neg few).trans (if_pos (by rw [normal]; rfl))
    have exponent : (BitVec.ofNat 11 (e + 1023 + 52).toNat).toNat = (e + 1023 + 52).toNat := by
      rw [BitVec.toNat_ofNat, Nat.mod_eq_of_lt (by omega)]
    -- The extreme exponent fields are those of infinities and of zeros.
    have inner {v : BitVec 11} (other : (e + 1023 + 52).toNat ≠ v.toNat) :
        BitVec.ofNat 11 (e + 1023 + 52).toNat ≠ v := fun same => other (same ▸ exponent).symm
    have greatest := @inner (-1#11) (by simp; omega)
    have least := @inner 0#11 (by simp; omega)
    rw [packed, stored, if_pos fits]
    unfold UnpackedFloat.unpack
    simp only [unpackMantissa_packComponents, unpackExponent_packComponents,
      unpackSign_packComponents, Sign.ofBitVec_toBitVec, if_neg greatest, if_neg least, exponent,
      append_implicit normal]
    congr 1
    have bias : (Format.binary64.exponentBias : ℤ) = 1023 := rfl
    omega
  · have many : 2 ^ 11 ≤ (e + 1023 + 52).toNat + 1 := by omega
    have packed : UnpackedFloat.pack Format.binary64 (.finite sign c e pos) =
        packedInfinity Format.binary64 sign := by
      unfold UnpackedFloat.pack
      exact if_pos many
    rw [packed, stored, if_neg fits]
    exact unpack_pack_infinity sign

theorem shiftToTargetExponent_large {m : ℕ} {e : ℤ} (accuracy : Accuracy) (large : 52 ≤ m.log2)
    (low : -1074 ≤ e + (m.log2 - 52)) :
    shiftToTargetExponent Format.binary64 m e accuracy =
      (ExtendedMantissa.ofMantissaAndAccuracy m accuracy >>> (m.log2 - 52),
        e + ((m.log2 - 52 : ℕ) : ℤ)) := by
  have bits : (Format.binary64.mantissaBits : ℤ) = 53 := rfl
  have least : Format.binary64.minExponent = -1074 := rfl
  have amount : (Format.binary64.targetExponent (totalExponent m e) - e).toNat = m.log2 - 52 := by
    unfold Format.targetExponent totalExponent
    omega
  unfold shiftToTargetExponent shiftToExponent
  simp only [amount]

theorem log2_div_two_pow {m : ℕ} (large : 52 ≤ m.log2) : (m / 2 ^ (m.log2 - 52)).log2 = 52 := by
  have positive : m ≠ 0 := by
    rintro rfl
    simp at large
  have range := (Nat.log2_eq_iff positive).1 rfl
  have least : 2 ^ 52 ≤ m / 2 ^ (m.log2 - 52) := by
    rw [Nat.le_div_iff_mul_le (by positivity), ← pow_add, Nat.add_sub_cancel' large]
    exact range.1
  have greatest : m / 2 ^ (m.log2 - 52) < 2 ^ 53 := by
    rw [Nat.div_lt_iff_lt_mul (by positivity), ← pow_add,
      show 53 + (m.log2 - 52) = m.log2 + 1 by omega]
    exact range.2
  exact (Nat.log2_eq_iff (by omega)).2 ⟨least, greatest⟩

theorem log2_mul_two_pow {c : ℕ} (pos : 0 < c) (j : ℕ) : (c * 2 ^ j).log2 = c.log2 + j := by
  have range := (Nat.log2_eq_iff pos.ne').1 rfl
  refine (Nat.log2_eq_iff (by positivity)).2 ⟨?_, ?_⟩
  · rw [pow_add]
    exact Nat.mul_le_mul_right _ range.1
  · rw [Nat.add_right_comm, pow_add]
    exact Nat.mul_lt_mul_of_pos_right range.2 (by positivity)

theorem roundedMantissa_bounds (em : ExtendedMantissa) :
    em.mantissa ≤ em.roundedMantissa ∧ em.roundedMantissa ≤ em.mantissa + 1 := by
  unfold ExtendedMantissa.roundedMantissa Accuracy.roundToNearestEven
  split <;> omega

theorem shiftRight_exact (c n : ℕ) :
    ExtendedMantissa.ofMantissaAndAccuracy (c * 2 ^ n) .exact >>> n =
      ExtendedMantissa.ofMantissaAndAccuracy c .exact := by
  change n.repeat ExtendedMantissa.shiftRightOne _ = _
  induction n generalizing c with
  | zero => simp [Nat.repeat]
  | succ n ih =>
    rw [Nat.repeat, pow_succ', ← mul_assoc, ih]
    simp [ExtendedMantissa.ofMantissaAndAccuracy, ExtendedMantissa.shiftRightOne]

theorem roundWithAccuracy_large (sign : Sign) {m : ℕ} {e : ℤ} (large : 52 ≤ m.log2)
    (low : -1074 ≤ e + (m.log2 - 52)) :
    ∃ c exponent pos, c.log2 = 52 ∧ e + (m.log2 - 52) ≤ exponent ∧
      roundWithAccuracy Format.binary64 sign m e .exact = .finite sign c exponent pos := by
  have first := shiftToTargetExponent_large (e := e) .exact large low
  generalize cut : ExtendedMantissa.ofMantissaAndAccuracy m .exact >>> (m.log2 - 52) = em at first
  have normal : em.mantissa.log2 = 52 := by
    rw [← cut, mantissa_shiftRight]
    exact log2_div_two_pow large
  have bounds := roundedMantissa_bounds em
  have range := two_pow_le_of_log2 normal
  have still : 52 ≤ em.roundedMantissa.log2 := (Nat.le_log2 (by omega)).2 (by omega)
  have second := shiftToTargetExponent_large (e := e + ((m.log2 - 52 : ℕ) : ℤ)) .exact still
    (by omega)
  have final := log2_div_two_pow still
  have pos : 0 < em.roundedMantissa / 2 ^ (em.roundedMantissa.log2 - 52) := by
    have := two_pow_le_of_log2 final
    omega
  have mantissa : (ExtendedMantissa.ofMantissaAndAccuracy em.roundedMantissa .exact >>>
      (em.roundedMantissa.log2 - 52)).mantissa =
        em.roundedMantissa / 2 ^ (em.roundedMantissa.log2 - 52) := mantissa_shiftRight _ _
  refine ⟨_, e + ((m.log2 - 52 : ℕ) : ℤ) + ((em.roundedMantissa.log2 - 52 : ℕ) : ℤ), pos, final,
    by omega, ?_⟩
  unfold roundWithAccuracy
  simp only [first, second, mantissa, dif_neg pos.ne']

theorem roundWithAccuracy_exact (sign : Sign) {c j : ℕ} {e : ℤ} (pos : 0 < c)
    (normal : c.log2 = 52) (low : -1074 ≤ e) :
    roundWithAccuracy Format.binary64 sign (c * 2 ^ j) (e - j) .exact =
      .finite sign c e pos := by
  have bits := log2_mul_two_pow pos j
  have drop : (c * 2 ^ j).log2 - 52 = j := by omega
  have first := shiftToTargetExponent_large (m := c * 2 ^ j) (e := e - j) .exact (by omega)
    (by omega)
  rw [drop, shiftRight_exact, Int.sub_add_cancel] at first
  have second := shiftToTargetExponent_large (m := c) (e := e) .exact normal.ge (by omega)
  have rounded : (ExtendedMantissa.ofMantissaAndAccuracy c .exact).roundedMantissa = c := rfl
  have mantissa : (ExtendedMantissa.ofMantissaAndAccuracy c .exact >>> 0).mantissa = c :=
    (mantissa_shiftRight _ 0).trans (by simp [ExtendedMantissa.ofMantissaAndAccuracy])
  rw [normal, Nat.sub_self] at second
  unfold roundWithAccuracy
  simp only [first, rounded, second, mantissa, dif_neg pos.ne', Nat.cast_zero, Int.add_zero]

theorem round_small {n : ℕ} (pos : 0 < n) (small : n.log2 ≤ 52) :
    UnpackedFloat.round Format.binary64 .positive n 0 =
      .finite .positive (n * 2 ^ (52 - n.log2)) (n.log2 - 52) (by positivity) := by
  have bits : (Format.binary64.mantissaBits : ℤ) = 53 := rfl
  have least : Format.binary64.minExponent = -1074 := rfl
  have target : Format.binary64.targetExponent (totalExponent n 0) = n.log2 - 52 := by
    unfold Format.targetExponent totalExponent
    omega
  have amount : (0 - ((n.log2 : ℤ) - 52)).toNat = 52 - n.log2 := by omega
  have exponent : (0 : ℤ) - ((52 - n.log2 : ℕ) : ℤ) = n.log2 - 52 := by omega
  have normal := log2_mul_two_pow pos (52 - n.log2)
  have exact := roundWithAccuracy_exact .positive (c := n * 2 ^ (52 - n.log2)) (j := 0)
    (e := n.log2 - 52) (by positivity) (by omega) (by omega)
  simp only [pow_zero, mul_one, Nat.cast_zero, Int.sub_zero] at exact
  unfold UnpackedFloat.round decreaseExponent
  simp only [target, amount, exponent, Nat.shiftLeft_eq, exact]

theorem unpack_ofNat_small {n : ℕ} (positive : 0 < n) (small : n < 2 ^ 53) :
    (Float.ofNat n).toModel.unpack =
      .finite .positive (n * 2 ^ (52 - n.log2)) (n.log2 - 52) (by positivity) := by
  have low : n.log2 ≤ 52 := Nat.le_of_lt_succ ((Nat.log2_lt positive.ne').2 small)
  have pos : 0 < n * 2 ^ (52 - n.log2) := by positivity
  have normal : (n * 2 ^ (52 - n.log2)).log2 = 52 := by
    have := log2_mul_two_pow positive (52 - n.log2)
    omega
  have finite := unpack_pack_normal .positive (e := n.log2 - 52) pos normal (by omega)
  rw [stored, if_pos (by omega)] at finite
  have word : n.toUInt64.toNat = n := Nat.mod_eq_of_lt (small.trans (by decide))
  have factor : n.toUInt64.toFloat.toModel.unpack = .finite .positive _ (n.log2 - 52) pos := by
    change (Float.Model.pack (UnpackedFloat.normalize _ (n.toUInt64.toNat : ℤ) 0 .positive)).unpack
      = _
    rw [word, UnpackedFloat.normalize, Int.compare_eq_gt.2 (by omega)]
    simp only [Int.toNat_natCast, round_small positive low, finite]
  have one : (Float.ofBits 0x3FF0000000000000).toModel.unpack =
      .finite .positive (2 ^ 52) (-52) (by decide) := rfl
  -- A short integer is converted as a word and multiplied by one, the power of ten of no places.
  have fast : (Float.ofNat n).toModel =
      Float.Model.mul n.toUInt64.toFloat.toModel (Float.ofBits 0x3FF0000000000000).toModel := by
    change (Float.ofScientific n false 0).toModel = _
    unfold Float.ofScientific
    rw [dif_pos ⟨small, by decide⟩]
    rfl
  have product := roundWithAccuracy_exact .positive (j := 52) (e := n.log2 - 52) pos normal
    (by omega)
  rw [fast, Float.Model.mul, factor, one]
  exact (congrArg (fun f => (Float.Model.pack f).unpack) product).trans finite

theorem unpack_ofNat_large {n : ℕ} (large : 2 ^ 53 ≤ n) :
    ∃ c e pos, c.log2 = 52 ∧ 0 < e ∧
      (Float.ofNat n).toModel.unpack = stored .positive c e pos := by
  have positive : n ≠ 0 := by omega
  have bits := log2_mul_two_pow (Nat.pos_of_ne_zero positive) 53
  have high : 53 ≤ n.log2 := (Nat.le_log2 positive).2 large
  obtain ⟨c, e, pos, normal, low, rounded⟩ := roundWithAccuracy_large .positive
    (m := n * 2 ^ 53) (e := -53) (by omega) (by omega)
  -- A long one is converted as a decimal numeral is, with room for 53 more bits.
  have slow : (Float.ofNat n).toModel = Float.Model.ofScientific n 0 := by
    change (Float.ofScientific n false 0).toModel = _
    unfold Float.ofScientific
    rw [dif_neg (by omega)]
    rfl
  have product : Float.Model.ofScientific n 0 = Float.Model.pack (.finite .positive c e pos) := by
    unfold Float.Model.ofScientific UnpackedFloat.ofScientific
    have factors : n <<< Format.binary64.mantissaBits * 10 ^ Int.toNat 0 = n * 2 ^ 53 := by
      simp [Nat.shiftLeft_eq, Format.mantissaBits]
    rw [dif_neg positive, if_neg (by decide), if_neg (by simp), if_pos le_rfl]
    simp only [UnpackedFloat.mul, factors]
    exact congrArg Float.Model.pack rounded
  refine ⟨c, e, pos, normal, by omega, ?_⟩
  rw [slow, product, unpack_pack_normal .positive pos normal (by omega)]

theorem greatest32_le_floor {c : ℕ} {e : ℤ} (normal : c.log2 = 52) (up : 0 < e) :
    Numeral.greatest32 ≤ ⌊(c : ℚ) * 2 ^ e⌋₊ := by
  rw [floor_dyadic, Int.toNat_eq_zero.2 (show -e ≤ 0 by omega), pow_zero, Nat.div_one]
  calc Numeral.greatest32 ≤ 2 ^ 52 := by decide
    _ ≤ c := (two_pow_le_of_log2 normal).1
    _ ≤ c * 2 ^ e.toNat := Nat.le_mul_of_pos_right c (by positivity)

/-- A positive integer as a double is held in range just as the integer is. -/
theorem unpack_ofNat {n : ℕ} (positive : 0 < n) :
    ∃ c e pos, c.log2 = 52 ∧ -1074 ≤ e ∧
      (Float.ofNat n).toModel.unpack = stored .positive c e pos ∧
      min ⌊(c : ℚ) * 2 ^ e⌋₊ Numeral.greatest32 = min n Numeral.greatest32 := by
  by_cases small : n < 2 ^ 53
  · have low : n.log2 ≤ 52 := Nat.le_of_lt_succ ((Nat.log2_lt positive.ne').2 small)
    have bits := log2_mul_two_pow positive (52 - n.log2)
    refine ⟨n * 2 ^ (52 - n.log2), n.log2 - 52, by positivity, by omega, by omega, ?_, ?_⟩
    · rw [unpack_ofNat_small positive small, stored, if_pos (by omega)]
    · rw [floor_dyadic, Int.toNat_eq_zero.2 (show (n.log2 : ℤ) - 52 ≤ 0 by omega),
        show (-((n.log2 : ℤ) - 52)).toNat = 52 - n.log2 by omega, pow_zero, mul_one,
        Nat.mul_div_cancel _ (by positivity)]
  · obtain ⟨c, e, pos, normal, up, unpacked⟩ := unpack_ofNat_large (n := n) (by omega)
    have far : Numeral.greatest32 ≤ n := by
      simp only [Numeral.greatest32]
      omega
    refine ⟨c, e, pos, normal, by omega, unpacked, ?_⟩
    rw [min_eq_right (greatest32_le_floor normal up), min_eq_right far]

theorem toNat_toUInt32_of_stored {x : Float} {sign : Sign} {c : ℕ} {e : ℤ} {pos : 0 < c}
    (normal : c.log2 = 52) (unpacked : x.toModel.unpack = stored sign c e pos) :
    x.toUInt32.toNat = match sign with
      | .positive => min ⌊(c : ℚ) * 2 ^ e⌋₊ Numeral.greatest32
      | .negative => 0 := by
  simp only [toNat_toUInt32_eq_toInt, unpacked]
  by_cases fits : e ≤ 971
  · rw [stored, if_pos fits, UnpackedFloat.toInt, roundToInt_eq]
    cases sign with
    | positive => rw [Sign.apply, Int.toNat_natCast]
    | negative => rw [Sign.apply, Int.toNat_eq_zero.2 (by omega), Nat.zero_min]
  · rw [stored, if_neg fits]
    cases sign with
    | positive =>
      rw [min_eq_right (greatest32_le_floor normal (by omega))]
      exact min_self _
    | negative => exact Nat.zero_min _

theorem unpack_neg_of_stored {x : Float} {sign : Sign} {c : ℕ} {e : ℤ} {pos : 0 < c}
    (normal : c.log2 = 52) (low : -1074 ≤ e) (unpacked : x.toModel.unpack = stored sign c e pos) :
    x.neg.toModel.unpack = stored (-sign) c e pos := by
  change (Float.Model.pack x.toModel.unpack.neg).unpack = _
  rw [unpacked]
  by_cases fits : e ≤ 971
  · rw [stored, if_pos fits]
    exact unpack_pack_normal (-sign) pos normal low
  · rw [stored, stored, if_neg fits, if_neg fits]
    exact unpack_pack_infinity (-sign)

theorem toNat_toUInt32_ofInt (i : ℤ) :
    (Float.ofInt i).toUInt32.toNat = min i.toNat Numeral.greatest32 := by
  cases i with
  | ofNat n =>
    rcases n.eq_zero_or_pos with rfl | positive
    · decide +kernel
    · obtain ⟨c, e, pos, normal, -, unpacked, same⟩ := unpack_ofNat positive
      exact (toNat_toUInt32_of_stored normal unpacked).trans same
  | negSucc n =>
    obtain ⟨c, e, pos, normal, low, unpacked, -⟩ := unpack_ofNat n.succ_pos
    exact toNat_toUInt32_of_stored normal (unpack_neg_of_stored normal low unpacked)

end PdfContent.Double
