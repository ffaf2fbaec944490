import Mathlib.Algebra.Order.Field.Basic
import Mathlib.Tactic.Positivity
import TreeGrammar.Proofs.Number.Rounding

/-! # Nearest — reading a decimal gives the double it rounds to

    A decimal is read by one multiplication or one division of doubles, if its digits
    and its power of ten are both doubles, and otherwise in the model of floating point
    with integers of any size.  Either way one number is rounded once. -/

namespace TreeGrammar.Number

open Float.Model (Format UnpackedFloat totalExponent)
open Float.Model.UnpackedFloat

variable {m : Nat} {e : Int}

section Residue

variable (q : Nat) {f : ℚ}

/-- A fraction below a half is noted as less than a half. -/
theorem Holds.below (hpos : 0 < f) (hlt : f < 1 / 2) :
    Holds (.ofMantissaAndAccuracy q (.inexact .lt)) (q + f) where
  le := by show (q : ℚ) ≤ q + f; linarith
  lt := by show q + f < (q : ℚ) + 1; linarith
  round := by
    refine iff_of_false Bool.false_ne_true ?_
    show ¬ (q : ℚ) + 1 / 2 ≤ q + f
    linarith
  sticky := by
    refine iff_of_true rfl ⟨?_, ?_⟩
    · show (q : ℚ) + f ≠ q
      linarith
    · show (q : ℚ) + f ≠ q + 1 / 2
      linarith

/-- A fraction of a half is noted as such. -/
theorem Holds.tie : Holds (.ofMantissaAndAccuracy q (.inexact .eq)) (q + 1 / 2) where
  le := by show (q : ℚ) ≤ q + 1 / 2; linarith
  lt := by show q + 1 / 2 < (q : ℚ) + 1; linarith
  round := iff_of_true rfl (le_refl _)
  sticky := iff_of_false Bool.false_ne_true fun h => h.2 rfl

/-- A fraction above a half is noted as more than a half. -/
theorem Holds.above (hgt : 1 / 2 < f) (hlt : f < 1) :
    Holds (.ofMantissaAndAccuracy q (.inexact .gt)) (q + f) where
  le := by show (q : ℚ) ≤ q + f; linarith
  lt := by show q + f < (q : ℚ) + 1; linarith
  round := by
    refine iff_of_true rfl ?_
    show (q : ℚ) + 1 / 2 ≤ q + f
    linarith
  sticky := by
    refine iff_of_true rfl ⟨?_, ?_⟩
    · show (q : ℚ) + f ≠ q
      linarith
    · show (q : ℚ) + f ≠ q + 1 / 2
      linarith

end Residue

/-- The residue of a quotient of two whole numbers. -/
theorem Holds.fraction (n : Nat) {k : Nat} (hk : 0 < k) :
    Holds (.ofMantissaAndAccuracy (n / k) (accuracyOfFraction (n % k) k)) (n / k) := by
  have hmod : (n % k : Nat) + (k : ℚ) * (n / k : Nat) = n := by
    exact_mod_cast Nat.mod_add_div n k
  have hkpos : (0 : ℚ) < k := by exact_mod_cast hk
  have hx : (n : ℚ) / k = (n / k : Nat) + (n % k : Nat) / k := by
    rw [← hmod, add_div, mul_div_cancel_left₀ _ hkpos.ne', add_comm]
  rw [hx, accuracyOfFraction]
  by_cases hzero : n % k = 0
  · rw [if_pos hzero, hzero, Nat.cast_zero, zero_div, add_zero]
    exact Holds.exact _
  · rw [if_neg hzero]
    rcases Nat.lt_trichotomy (2 * (n % k)) k with hlt | heq | hgt
    · rw [Nat.compare_eq_lt.mpr hlt]
      refine Holds.below _ (div_pos (by exact_mod_cast Nat.pos_of_ne_zero hzero) hkpos) ?_
      have : (2 : ℚ) * (n % k : Nat) < k := by exact_mod_cast hlt
      rw [div_lt_iff₀ hkpos]
      linarith
    · rw [Nat.compare_eq_eq.mpr heq]
      have : (2 : ℚ) * (n % k : Nat) = k := by exact_mod_cast heq
      have htie : ((n % k : Nat) : ℚ) / k = 1 / 2 := by
        rw [div_eq_iff hkpos.ne']
        linarith
      rw [htie]
      exact Holds.tie _
    · rw [Nat.compare_eq_gt.mpr hgt]
      have : (k : ℚ) < 2 * (n % k : Nat) := by exact_mod_cast hgt
      refine Holds.above _ ?_ ?_
      · rw [lt_div_iff₀ hkpos]
        linarith
      · rw [div_lt_one hkpos]
        exact_mod_cast Nat.mod_lt n hk

/-! ## Products and quotients -/

/-- A product of mantissas that has enough bits is rounded once. -/
theorem mul_eq (hc : Canonical m e) {m₁ m₂ : Nat} {e₁ e₂ : Int} {h₁ : 0 < m₁} {h₂ : 0 < m₂}
    (hbits : 2 ^ 52 ≤ m₁ * m₂) (hr : RoundsTo m e (m₁ * 2 ^ e₁ * (m₂ * 2 ^ e₂))) :
    UnpackedFloat.mul Format.binary64 (.finite .positive m₁ e₁ h₁) (.finite .positive m₂ e₂ h₂)
      = .finite .positive m e hc.pos := by
  have hlog : 52 ≤ (m₁ * m₂).log2 := (Nat.le_log2 (Nat.mul_pos h₁ h₂).ne').mpr hbits
  have hvalue : (m₁ : ℚ) * 2 ^ e₁ * (m₂ * 2 ^ e₂) = (m₁ * m₂ : Nat) * 2 ^ (e₁ + e₂) := by
    rw [zpow_add₀ two_ne_zero]
    push_cast
    ring
  rw [hvalue] at hr
  exact roundWithAccuracy_eq _ hc hr (Holds.exact _) (by omega)

/-- A quotient of mantissas is taken with enough bits and rounded once. -/
theorem div_eq (hc : Canonical m e) {m₁ m₂ : Nat} {e₁ e₂ : Int} {h₁ : 0 < m₁} {h₂ : 0 < m₂}
    (hr : RoundsTo m e (m₁ * 2 ^ e₁ / (m₂ * 2 ^ e₂))) :
    UnpackedFloat.div Format.binary64 (.finite .positive m₁ e₁ h₁) (.finite .positive m₂ e₂ h₂)
      = .finite .positive m e hc.pos := by
  have htarget : Format.binary64.targetExponent (totalExponent m₁ e₁ - totalExponent m₂ e₂)
      = max (m₁.log2 + e₁ - m₂.log2 - e₂ - 53) leastExponent := by
    show max ((m₁.log2 : Int) + 1 + e₁ - (m₂.log2 + 1 + e₂) - 53) (-1074)
      = max ((m₁.log2 : Int) + e₁ - m₂.log2 - e₂ - 53) (-1074)
    omega
  show roundWithAccuracy Format.binary64 .positive
    (m₁ <<< (e₁ - e₂ - min (e₁ - e₂) (Format.binary64.targetExponent
      (totalExponent m₁ e₁ - totalExponent m₂ e₂))).toNat / m₂)
    (min (e₁ - e₂) (Format.binary64.targetExponent (totalExponent m₁ e₁ - totalExponent m₂ e₂)))
    (accuracyOfFraction (m₁ <<< (e₁ - e₂ - min (e₁ - e₂) (Format.binary64.targetExponent
      (totalExponent m₁ e₁ - totalExponent m₂ e₂))).toNat % m₂) m₂) = _
  rw [htarget]
  generalize hd : min (e₁ - e₂) (max ((m₁.log2 : Int) + e₁ - m₂.log2 - e₂ - 53) leastExponent) = d
  obtain ⟨k, hk⟩ := Int.le.dest (show d ≤ e₁ - e₂ by omega)
  have hshift : (e₁ - e₂ - d).toNat = k := by omega
  rw [hshift, Nat.shiftLeft_eq]
  have hvalue : (m₁ : ℚ) * 2 ^ e₁ / (m₂ * 2 ^ e₂) = (m₁ * 2 ^ k : Nat) / m₂ * 2 ^ d := by
    have he : (2 : ℚ) ^ e₁ = 2 ^ d * 2 ^ k * 2 ^ e₂ := by
      rw [← zpow_natCast, ← zpow_add₀ two_ne_zero, ← zpow_add₀ two_ne_zero]
      congr 1
      omega
    rw [he]
    push_cast
    field_simp
  rw [hvalue] at hr
  refine roundWithAccuracy_eq _ hc hr (Holds.fraction _ h₂) ?_
  by_cases hleast : d ≤ leastExponent
  · omega
  -- the shift was chosen so that the quotient has a bit more than the significand
  · have hbits : 2 ^ 52 ≤ m₁ * 2 ^ k / m₂ := by
      rw [Nat.le_div_iff_mul_le h₂]
      calc 2 ^ 52 * m₂ ≤ 2 ^ 52 * 2 ^ (m₂.log2 + 1) :=
            Nat.mul_le_mul_left _ (Nat.le_of_lt Nat.lt_log2_self)
        _ = 2 ^ (53 + m₂.log2) := by rw [← Nat.pow_add]; congr 1; omega
        _ ≤ 2 ^ (m₁.log2 + k) := Nat.pow_le_pow_right (by decide) (by omega)
        _ = 2 ^ m₁.log2 * 2 ^ k := Nat.pow_add ..
        _ ≤ m₁ * 2 ^ k := Nat.mul_le_mul_right _ (Nat.log2_self_le h₁.ne')
    have hlog := (Nat.le_log2 (by omega)).mpr hbits
    omega

/-! ## Decimals -/

/-- With integers of any size a decimal is rounded once. -/
theorem ofScientific_eq (hc : Canonical m e) {n : Nat} {k : Int} (hn : n ≠ 0) (hk : k ≤ 2048)
    (hk' : -(2048 + (n.log2 : Int)) ≤ k) (hr : RoundsTo m e (n * 10 ^ k)) :
    UnpackedFloat.ofScientific Format.binary64 n k = .finite .positive m e hc.pos := by
  have hlarge : ¬ k > 2 ^ Format.binary64.exponentBits := by
    show ¬ k > 2 ^ 11
    omega
  have hsmall : ¬ k < -((2 ^ Format.binary64.exponentBits : Int) + n.log2) := by
    show ¬ k < -(2 ^ 11 + (n.log2 : Int))
    omega
  rw [UnpackedFloat.ofScientific, dif_neg hn, if_neg hlarge, if_neg hsmall]
  by_cases hsign : 0 ≤ k
  · obtain ⟨i, rfl⟩ := Int.eq_ofNat_of_zero_le hsign
    rw [if_pos hsign]
    have hbits : 2 ^ 52 ≤ n <<< 53 * 10 ^ ((i : Int)).toNat := by
      rw [Nat.shiftLeft_eq]
      calc 2 ^ 52 ≤ 2 ^ 53 := by decide
        _ ≤ n * 2 ^ 53 := Nat.le_mul_of_pos_left _ (Nat.pos_of_ne_zero hn)
        _ ≤ n * 2 ^ 53 * 10 ^ ((i : Int)).toNat :=
            Nat.le_mul_of_pos_right _ (Nat.pow_pos (by decide))
    refine mul_eq hc hbits ?_
    have hvalue : ((n <<< 53 : Nat) : ℚ) * 2 ^ (-53 : Int)
        * ((10 ^ ((i : Int)).toNat : Nat) * 2 ^ (0 : Int)) = n * 10 ^ (i : Int) := by
      have hcancel : (2 : ℚ) ^ 53 * 2 ^ (-53 : Int) = 1 := by norm_num
      rw [Nat.shiftLeft_eq, Int.toNat_natCast, zpow_natCast, zpow_zero, mul_one]
      simp only [Nat.cast_mul, Nat.cast_pow, Nat.cast_ofNat]
      rw [mul_assoc (n : ℚ), hcancel, mul_one]
    show RoundsTo m e (((n <<< 53 : Nat) : ℚ) * 2 ^ (-53 : Int)
      * ((10 ^ ((i : Int)).toNat : Nat) * 2 ^ (0 : Int)))
    rw [hvalue]
    exact hr
  · rw [if_neg hsign]
    refine div_eq hc ?_
    obtain ⟨i, rfl⟩ : ∃ i : Nat, k = -i := ⟨(-k).toNat, by omega⟩
    have hvalue : ((n : Nat) : ℚ) * 2 ^ (0 : Int)
        / ((10 ^ (- -(i : Int)).toNat : Nat) * 2 ^ (0 : Int)) = n * 10 ^ (-(i : Int)) := by
      rw [neg_neg, Int.toNat_natCast, zpow_neg, zpow_zero, zpow_natCast]
      push_cast
      rw [mul_one, mul_one, div_eq_mul_inv]
    rw [hvalue]
    exact hr

/-- A number of up to fifty-three bits, moved up to the highest. -/
theorem canonical_shift {n : Nat} (hpos : 0 < n) (hlt : n < 2 ^ 53) {k : Int} (hk : -1000 ≤ k)
    (hk' : k ≤ 900) : Canonical (n * 2 ^ (52 - n.log2)) (k - (52 - n.log2 : Nat)) := by
  have hlog : n.log2 ≤ 52 := Nat.le_of_lt_succ ((Nat.log2_lt hpos.ne').mpr hlt)
  have hleast : leastExponent = -1074 := rfl
  refine ⟨Nat.mul_pos hpos (Nat.pow_pos (by decide)), ?_, by omega, by omega, Or.inl ?_⟩
  · calc n * 2 ^ (52 - n.log2) < 2 ^ (n.log2 + 1) * 2 ^ (52 - n.log2) :=
          Nat.mul_lt_mul_of_pos_right Nat.lt_log2_self (Nat.pow_pos (by decide))
      _ = 2 ^ 53 := by rw [← Nat.pow_add]; congr 1; omega
  · calc 2 ^ 52 = 2 ^ n.log2 * 2 ^ (52 - n.log2) := by rw [← Nat.pow_add]; congr 1; omega
      _ ≤ n * 2 ^ (52 - n.log2) := Nat.mul_le_mul_right _ (Nat.log2_self_le hpos.ne')

/-- Filling up a number to all bits of a significand keeps its value. -/
theorem shift_value (n : Nat) (k : Int) :
    ((n * 2 ^ (52 - n.log2) : Nat) : ℚ) * 2 ^ (k - (52 - n.log2 : Nat)) = n * 2 ^ k := by
  rw [zpow_sub₀ two_ne_zero, zpow_natCast]
  push_cast
  field_simp

/-- A double rounds to itself. -/
theorem RoundsTo.self (m : Nat) (e : Int) : RoundsTo m e (m * 2 ^ e) := by
  have hpos : (0 : ℚ) < 2 ^ e := zpow_pos two_pos e
  have hgap := gapBelow_pos m e
  refine Or.inl ⟨?_, ?_⟩
  · exact mul_lt_mul_of_pos_right (by linarith) hpos
  · exact mul_lt_mul_of_pos_right (by linarith) hpos

/-- A number that has no more bits than a significand is not rounded. -/
theorem round_natural {n : Nat} (hpos : 0 < n) (hlt : n < 2 ^ 53)
    (hc : Canonical (n * 2 ^ (52 - n.log2)) (0 - (52 - n.log2 : Nat))) :
    UnpackedFloat.round Format.binary64 .positive n 0
      = .finite .positive (n * 2 ^ (52 - n.log2)) (0 - (52 - n.log2 : Nat)) hc.pos := by
  have hlog : n.log2 ≤ 52 := Nat.le_of_lt_succ ((Nat.log2_lt hpos.ne').mpr hlt)
  have hleast : leastExponent = -1074 := rfl
  have hmax : max ((n.log2 : Int) + 0 - 52) leastExponent = 0 - (52 - n.log2 : Nat) := by omega
  have hk : (0 - (0 - ((52 - n.log2 : Nat) : Int))).toNat = 52 - n.log2 := by omega
  rw [UnpackedFloat.round, targetExponent_eq, hmax, decreaseExponent, hk, Nat.shiftLeft_eq]
  refine roundWithAccuracy_eq .positive hc (RoundsTo.self _ _) (Holds.exact _) ?_
  have hbits := (Nat.le_log2 hc.pos.ne').mpr (hc.normal.resolve_right (by omega))
  omega

/-- A whole number of up to fifty-three bits is a double. -/
theorem toFloat_eq {n : Nat} (hpos : 0 < n) (hlt : n < 2 ^ 53) :
    n.toUInt64.toFloat = double false (n * 2 ^ (52 - n.log2)) (0 - (52 - n.log2 : Nat)) := by
  have hc := canonical_shift hpos hlt (by decide : (-1000 : Int) ≤ 0) (by decide)
  have hnat : n.toUInt64.toNat = n :=
    UInt64.toNat_ofNat_of_lt' (Nat.lt_trans hlt (by decide : 2 ^ 53 < 2 ^ 64))
  have hsign : compare (n : Int) 0 = .gt := Int.compare_eq_gt.mpr (by omega)
  rw [double, dif_neg hc.pos.ne']
  show Float.ofModel (.pack (UnpackedFloat.normalize Format.binary64 (n.toUInt64.toNat : Int) 0
    .positive)) = _
  rw [hnat, UnpackedFloat.normalize, hsign]
  exact congrArg (fun u => Float.ofModel (.pack u)) (round_natural hpos hlt hc)

/-- The powers of ten that are doubles. -/
theorem powersOfTen_eq : ∀ i (_ : i < Float.exactlyRepresentablePowersOfTen.size),
    Float.exactlyRepresentablePowersOfTen[i]
      = double false (5 ^ i * 2 ^ (52 - (5 ^ i).log2)) (i - (52 - (5 ^ i).log2 : Nat)) := by
  decide +kernel

/-- With digits and a power of ten that are doubles, one operation on these rounds once. -/
theorem ofScientific_fast (hc : Canonical m e) {n i : Nat} (hpos : 0 < n) (hlt : n < 2 ^ 53)
    (hi : i ≤ 22) (s : Bool) (hr : RoundsTo m e (if s then n / 10 ^ i else n * 10 ^ i)) :
    Float.ofScientific n s i = double false m e := by
  have hfive : 5 ^ i < 2 ^ 53 :=
    Nat.lt_of_le_of_lt (Nat.pow_le_pow_right (by decide) hi) (by decide)
  have hc₁ := canonical_shift hpos hlt (by decide : (-1000 : Int) ≤ 0) (by decide)
  have hc₂ := canonical_shift (Nat.pow_pos (by decide)) hfive (by omega : -1000 ≤ (i : Int))
    (by omega)
  have hten : ((5 ^ i : Nat) : ℚ) * 2 ^ (i : Int) = 10 ^ i := by
    rw [zpow_natCast, Nat.cast_pow, ← mul_pow]
    norm_num
  have hnum : (n : ℚ) * 2 ^ (0 : Int) = n := by rw [zpow_zero, mul_one]
  have hpower := powersOfTen_eq i (Nat.lt_succ_of_le hi)
  rw [Float.ofScientific, dif_pos ⟨hlt, hi⟩, double, dif_neg hc.pos.ne']
  dsimp only
  cases s with
  | true =>
      refine (congrArg₂ (· / ·) (toFloat_eq hpos hlt) hpower).trans ?_
      show Float.ofModel (.pack (UnpackedFloat.div Format.binary64
        (double false _ _).toModel.unpack (double false _ _).toModel.unpack)) = _
      rw [hc₁.unpack_double, hc₂.unpack_double]
      refine congrArg (fun u => Float.ofModel (.pack u)) (div_eq hc ?_)
      rw [shift_value, shift_value, hten, hnum]
      exact hr
  | false =>
      refine (congrArg₂ (· * ·) (toFloat_eq hpos hlt) hpower).trans ?_
      show Float.ofModel (.pack (UnpackedFloat.mul Format.binary64
        (double false _ _).toModel.unpack (double false _ _).toModel.unpack)) = _
      rw [hc₁.unpack_double, hc₂.unpack_double]
      refine congrArg (fun u => Float.ofModel (.pack u)) (mul_eq hc ?_ ?_)
      · have hleast : leastExponent = -1074 := rfl
        have hbits := hc₁.normal.resolve_right (by omega)
        exact Nat.le_trans hbits (Nat.le_mul_of_pos_right _ hc₂.pos)
      · rw [shift_value, shift_value, hten, hnum]
        exact hr

/-! ## The range -/

/-- The digits of a number tell between which powers of ten it lies. -/
theorem lt_ten_pow_length (n : Nat) : n < 10 ^ (digitsOf n).length :=
  (Nat.length_toDigits_le_iff (by decide) Nat.length_toDigits_pos).mp (Nat.le_refl _)

/-- A number has no more digits than its value asks for. -/
theorem ten_pow_length_le {n : Nat} (hn : 0 < n) : 10 ^ ((digitsOf n).length - 1) ≤ n := by
  have hlength : 0 < (digitsOf n).length := Nat.length_toDigits_pos
  rcases Nat.eq_zero_or_pos ((digitsOf n).length - 1) with hzero | hpos
  · rw [hzero]
    exact hn
  · refine Nat.le_of_not_lt fun hlt => ?_
    have hle : (digitsOf n).length ≤ (digitsOf n).length - 1 :=
      (Nat.length_toDigits_le_iff (by decide) hpos).mpr hlt
    omega

/-- What rounds to a double lies below a power of ten that is far too great. -/
theorem Canonical.lt_of_roundsTo (hc : Canonical m e) {r : ℚ} (hr : RoundsTo m e r) :
    r < 10 ^ (400 : Int) := by
  have hlt := hr.lt_two_pow hc
  have hgreatest := hc.greatest
  have hle : (2 : ℚ) ^ (53 + e) ≤ 2 ^ (1024 : Int) :=
    zpow_le_zpow_right₀ (by norm_num) (by omega)
  have hten : (2 : ℚ) ^ (1024 : Int) < 10 ^ (400 : Int) := by
    have hroot : ((2 : ℚ) ^ 256) ^ 4 < ((10 : ℚ) ^ 100) ^ 4 :=
      pow_lt_pow_left₀ (by norm_num) (by norm_num) (by norm_num)
    rw [← pow_mul, ← pow_mul] at hroot
    exact hroot
  exact lt_of_lt_of_le hlt (le_trans hle (le_of_lt hten))

/-- What rounds to a double that is not zero lies above a power of ten that is far too small. -/
theorem Canonical.gt_of_roundsTo (hc : Canonical m e) {r : ℚ} (hr : RoundsTo m e r) :
    10 ^ (-400 : Int) < r := by
  have hleast : -1074 ≤ e := hc.least
  have hgap := gapBelow_le m e
  have hm : (1 : ℚ) ≤ m := by exact_mod_cast hc.pos
  have hten : (10 : ℚ) ^ (-400 : Int) < 1 / 2 * 2 ^ (-1074 : Int) := by
    have hroot : ((2 : ℚ) ^ 215) ^ 5 < ((10 : ℚ) ^ 80) ^ 5 :=
      pow_lt_pow_left₀ (by norm_num) (by norm_num) (by norm_num)
    rw [← pow_mul, ← pow_mul] at hroot
    have hhalf : (1 : ℚ) / 2 * 2 ^ (-1074 : Int) = (2 ^ (215 * 5))⁻¹ := by
      rw [one_div, ← zpow_neg_one, ← zpow_add₀ two_ne_zero, ← zpow_natCast, ← zpow_neg]
      rfl
    have hpow : (10 : ℚ) ^ (-400 : Int) = (10 ^ (80 * 5))⁻¹ := by
      rw [← zpow_natCast, ← zpow_neg]
      rfl
    rw [hhalf, hpow]
    exact inv_strictAnti₀ (pow_pos two_pos _) hroot
  calc (10 : ℚ) ^ (-400 : Int) < 1 / 2 * 2 ^ (-1074 : Int) := hten
    _ ≤ 1 / 2 * 2 ^ e := by
        refine mul_le_mul_of_nonneg_left ?_ (by norm_num)
        exact zpow_le_zpow_right₀ (by norm_num) hleast
    _ ≤ (m - gapBelow m e) * 2 ^ e :=
        mul_le_mul_of_nonneg_right (by linarith) (le_of_lt (zpow_pos two_pos e))
    _ ≤ r := hr.bounds.1

/-- The power of ten in front of the first digit of a decimal is above what the decimal is above. -/
theorem lt_leading {n : Nat} {b k : Int} (h : (10 : ℚ) ^ b < n * 10 ^ k) :
    b < k + (digitsOf n).length := by
  have hlt : (n : ℚ) < 10 ^ (digitsOf n).length := by exact_mod_cast lt_ten_pow_length n
  refine (zpow_lt_zpow_iff_right₀ (by norm_num : (1 : ℚ) < 10)).mp ?_
  calc (10 : ℚ) ^ b < n * 10 ^ k := h
    _ ≤ 10 ^ (digitsOf n).length * 10 ^ k :=
        mul_le_mul_of_nonneg_right (le_of_lt hlt) (le_of_lt (zpow_pos (by norm_num) k))
    _ = 10 ^ (k + (digitsOf n).length) := by
        rw [zpow_add₀ (by norm_num), zpow_natCast, mul_comm]

/-- The leading digit of a decimal stands below every power of ten that the decimal is below. -/
theorem leading_lt {n : Nat} (hn : 0 < n) {b k : Int} (h : (n : ℚ) * 10 ^ k < 10 ^ b) :
    k + ((digitsOf n).length - 1 : Nat) < b := by
  have hle : (10 : ℚ) ^ ((digitsOf n).length - 1) ≤ n := by
    exact_mod_cast ten_pow_length_le hn
  refine (zpow_lt_zpow_iff_right₀ (by norm_num : (1 : ℚ) < 10)).mp ?_
  calc (10 : ℚ) ^ (k + ((digitsOf n).length - 1 : Nat))
      = 10 ^ ((digitsOf n).length - 1) * 10 ^ k := by
        rw [zpow_add₀ (by norm_num), zpow_natCast, mul_comm]
    _ ≤ n * 10 ^ k := mul_le_mul_of_nonneg_right hle (le_of_lt (zpow_pos (by norm_num) k))
    _ < 10 ^ b := h

/-- A decimal that rounds to a double is read as that double. -/
theorem Decimal.toFloat_eq (hc : Canonical m e) {d : Decimal}
    (hr : RoundsTo m e (d.digits * 10 ^ d.exponent)) : d.toFloat = double false m e := by
  obtain ⟨n, k⟩ := d
  dsimp only at hr
  have hlow := hc.gt_of_roundsTo hr
  have hhigh := hc.lt_of_roundsTo hr
  have hpos : 0 < n := by
    refine Nat.pos_of_ne_zero ?_
    rintro rfl
    rw [Nat.cast_zero, zero_mul] at hlow
    exact absurd hlow (not_lt.mpr (le_of_lt (zpow_pos (by norm_num) _)))
  have hlength : 0 < (digitsOf n).length := Nat.length_toDigits_pos
  have hleading := lt_leading hlow
  have hleading' := leading_lt hpos hhigh
  have hlog : (digitsOf n).length ≤ n.log2 + 1 := by
    have hle : 2 ^ ((digitsOf n).length - 1) ≤ n :=
      Nat.le_trans (Nat.pow_le_pow_left (by decide) _) (ten_pow_length_le hpos)
    have := (Nat.le_log2 hpos.ne').mpr hle
    omega
  rw [Decimal.toFloat]
  dsimp only
  -- the power of ten of the first digit is within the range that is read at all
  rw [if_neg (not_or.mpr ⟨hpos.ne', by omega⟩), if_neg (by omega)]
  by_cases hfast : n < 2 ^ 53 ∧ k.natAbs ≤ 22
  · refine ofScientific_fast hc hpos hfast.1 hfast.2 _ ?_
    have hvalue : (if decide (k < 0) = true then (n : ℚ) / 10 ^ k.natAbs else n * 10 ^ k.natAbs)
        = n * 10 ^ k := by
      cases k with
      | ofNat i => rfl
      | negSucc i =>
          rw [decide_eq_true (Int.negSucc_lt_zero i), if_pos rfl, zpow_negSucc, div_eq_mul_inv]
          rfl
    rw [hvalue]
    exact hr
  · have hexponent : (if decide (k < 0) = true then Int.negOfNat k.natAbs else Int.ofNat k.natAbs)
        = k := by
      cases k with
      | ofNat i => rfl
      | negSucc i =>
          rw [decide_eq_true (Int.negSucc_lt_zero i), if_pos rfl]
          rfl
    rw [Float.ofScientific, dif_neg hfast, double, dif_neg hc.pos.ne', hexponent]
    exact congrArg (fun u => Float.ofModel (.pack u))
      (ofScientific_eq hc hpos.ne' (by omega) (by omega) hr)

end TreeGrammar.Number
