import Mathlib.Tactic.Linarith
import Mathlib.Tactic.NormNum
import Mathlib.Tactic.FieldSimp
import Mathlib.Algebra.Order.Field.Power
import Mathlib.Data.Rat.Cast.Order
import TreeGrammar.Proofs.Number.Packing

/-! # Rounding — which numbers become which double

    The model of floating point rounds in two shifts: a mantissa with a round bit and
    a sticky bit is shifted to where fifty-three bits are left, rounded, and shifted
    once more if it has grown.  `Holds` says what the two bits know of the number behind
    them, and a shift keeps it.  `RoundsTo` is the interval of the numbers that become
    a double; next to a power of two it is narrower below, and there the mantissa is
    rounded one place further to the right. -/

namespace TreeGrammar.Number

open Float.Model (Format UnpackedFloat totalExponent)
open Float.Model.UnpackedFloat

/-- How far the interval of a double reaches down, in steps of its exponent. -/
def gapBelow (m : Nat) (e : Int) : ℚ :=
  if m = 2 ^ 52 ∧ leastExponent < e then 1 / 4 else 1 / 2

/-- There is room below every double. -/
theorem gapBelow_pos (m : Nat) (e : Int) : 0 < gapBelow m e := by
  rw [gapBelow]
  split <;> norm_num

/-- The room below a double is at most that above it. -/
theorem gapBelow_le (m : Nat) (e : Int) : gapBelow m e ≤ 1 / 2 := by
  rw [gapBelow]
  split <;> norm_num

/-- The number is nearer to `m · 2 ^ e` than to its neighbours, or as near and `m` is even. -/
def RoundsTo (m : Nat) (e : Int) (r : ℚ) : Prop :=
  ((m - gapBelow m e) * 2 ^ e < r ∧ r < (m + 1 / 2) * 2 ^ e)
    ∨ (m % 2 = 0 ∧ (r = (m - gapBelow m e) * 2 ^ e ∨ r = (m + 1 / 2) * 2 ^ e))

/-- What the residual bits of a mantissa say of the number behind it. -/
structure Holds (em : ExtendedMantissa) (x : ℚ) : Prop where
  le : em.mantissa ≤ x
  lt : x < em.mantissa + 1
  round : em.roundBit = true ↔ em.mantissa + 1 / 2 ≤ x
  sticky : em.stickyBit = true ↔ x ≠ em.mantissa ∧ x ≠ em.mantissa + 1 / 2

namespace Holds

variable {em : ExtendedMantissa} {x : ℚ}

/-- Without residue the number is the mantissa. -/
theorem exact (m : Nat) : Holds (.ofMantissaAndAccuracy m .exact) m where
  le := le_refl _
  lt := lt_add_one _
  round := by
    refine iff_of_false Bool.false_ne_true ?_
    show ¬ ((m : ℚ) + 1 / 2 ≤ m)
    linarith
  sticky := iff_of_false Bool.false_ne_true fun h => h.1 rfl

/-- A shift by one place halves the number. -/
theorem shiftRightOne (h : Holds em x) : Holds em.shiftRightOne (x / 2) := by
  obtain ⟨m, roundBit, stickyBit⟩ := em
  obtain ⟨hle, hlt, hround, hsticky⟩ := h
  dsimp only at hle hlt hround hsticky
  have hinexact : (roundBit || stickyBit) = true ↔ x ≠ m := by
    rw [Bool.or_eq_true, hround, hsticky]
    constructor
    · rintro (hx | ⟨hx, -⟩)
      · intro heq
        linarith
      · exact hx
    · intro hx
      by_cases htie : x = m + 1 / 2
      · exact Or.inl (le_of_eq htie.symm)
      · exact Or.inr ⟨hx, htie⟩
  -- the last bit of the mantissa becomes the round bit, and the two before are one sticky bit
  obtain ⟨q, hq⟩ : ∃ q, m = 2 * q ∨ m = 2 * q + 1 := ⟨m / 2, by omega⟩
  rcases hq with rfl | rfl
  · have hdiv : 2 * q / 2 = q := by omega
    have hmod : (2 * q % 2 != 0) = false := by rw [Nat.mul_mod_right]; rfl
    push_cast at hle hlt hinexact
    refine ⟨?_, ?_, ?_, hinexact.trans ?_⟩ <;> dsimp only [ExtendedMantissa.shiftRightOne] <;>
      rw [hdiv]
    · linarith
    · linarith
    · rw [hmod]
      exact iff_of_false Bool.false_ne_true (by linarith)
    · constructor
      · intro hx
        exact ⟨fun h => hx (by linarith), fun h => by linarith⟩
      · rintro ⟨hx, -⟩ h
        exact hx (by linarith)
  · have hdiv : (2 * q + 1) / 2 = q := by omega
    have hmod : ((2 * q + 1) % 2 != 0) = true := by rw [Nat.mul_add_mod]; rfl
    push_cast at hle hlt hinexact
    refine ⟨?_, ?_, ?_, hinexact.trans ?_⟩ <;> dsimp only [ExtendedMantissa.shiftRightOne] <;>
      rw [hdiv]
    · linarith
    · linarith
    · rw [hmod]
      exact iff_of_true rfl (by linarith)
    · constructor
      · intro hx
        exact ⟨fun h => by linarith, fun h => hx (by linarith)⟩
      · rintro ⟨-, hx⟩ h
        exact hx (by linarith)

/-- A shift divides the number by a power of two. -/
theorem shiftRight (h : Holds em x) (n : Nat) : Holds (em >>> n) (x / 2 ^ n) := by
  show Holds (n.repeat ExtendedMantissa.shiftRightOne em) _
  induction n with
  | zero =>
      rw [pow_zero, div_one]
      exact h
  | succ n ih =>
      have hstep := ih.shiftRightOne
      rwa [div_div, ← pow_succ] at hstep

/-- Rounding finds the whole number that is nearest, or the even one of two. -/
theorem roundedMantissa_eq (h : Holds em x) {m : Nat}
    (hx : (m - 1 / 2 < x ∧ x < m + 1 / 2)
      ∨ (m % 2 = 0 ∧ (x = m - 1 / 2 ∨ x = m + 1 / 2))) : em.roundedMantissa = m := by
  obtain ⟨n, roundBit, stickyBit⟩ := em
  obtain ⟨hle, hlt, hround, hsticky⟩ := h
  dsimp only at hle hlt hround hsticky
  have hnear : m - 1 / 2 ≤ x ∧ x ≤ m + 1 / 2 := by
    rcases hx with ⟨hlow, hhigh⟩ | ⟨-, rfl | rfl⟩
    · exact ⟨le_of_lt hlow, le_of_lt hhigh⟩
    · exact ⟨le_refl _, by linarith⟩
    · exact ⟨by linarith, le_refl _⟩
  cases roundBit with
  | false =>
      have hbelow : x < n + 1 / 2 := not_le.mp fun h => Bool.false_ne_true (hround.mpr h)
      have hmn : (m : ℚ) < n + 1 := by linarith
      have hnm : (n : ℚ) < m + 1 := by linarith
      have heq : n = m := by
        norm_cast at hmn hnm
        omega
      cases stickyBit <;> exact heq
  | true =>
      have habove : n + 1 / 2 ≤ x := hround.mp rfl
      cases stickyBit with
      | false =>
          have htie : x = n + 1 / 2 := by
            by_contra hne
            exact Bool.false_ne_true (hsticky.mpr ⟨by linarith, hne⟩)
          show n + n % 2 = m
          rcases hx with ⟨hlow, hhigh⟩ | ⟨heven, hx | hx⟩
          · have hmn : (m : ℚ) < n + 1 := by linarith
            have hnm : (n : ℚ) < m := by linarith
            norm_cast at hmn hnm
            omega
          · have hmn : (m : ℚ) = n + 1 := by linarith
            norm_cast at hmn
            omega
          · have hmn : (m : ℚ) = n := by linarith
            norm_cast at hmn
            omega
      | true =>
          have hne := (hsticky.mp rfl).2
          have hlt' : n + 1 / 2 < x := lt_of_le_of_ne habove (Ne.symm hne)
          have hmn : (m : ℚ) < n + 2 := by linarith
          have hnm : (n : ℚ) < m := by linarith
          show n + 1 = m
          norm_cast at hmn hnm
          omega

end Holds

/-! ## The two shifts -/

/-- The exponent that leaves fifty-three bits of a mantissa, or the least one. -/
theorem targetExponent_eq (m : Nat) (e : Int) :
    Format.binary64.targetExponent (totalExponent m e) = max (m.log2 + e - 52) leastExponent := by
  show max ((m.log2 : Int) + 1 + e - 53) (-1074) = max ((m.log2 : Int) + e - 52) (-1074)
  omega

section Shift

variable {m : Nat} {e target : Int} {accuracy : Accuracy} {x : ℚ}

/-- A shift to a larger exponent keeps the number. -/
theorem holds_shiftToExponent (hx : Holds (.ofMantissaAndAccuracy m accuracy) x)
    (he : e ≤ target) :
    (shiftToExponent m e accuracy target).2 = target
      ∧ Holds (shiftToExponent m e accuracy target).1 (x * 2 ^ e / 2 ^ target) := by
  obtain ⟨k, rfl⟩ := Int.le.dest he
  have hk : (e + k - e).toNat = k := by omega
  rw [shiftToExponent, hk]
  refine ⟨rfl, ?_⟩
  have hscale : x * 2 ^ e / 2 ^ (e + (k : Int)) = x / 2 ^ k := by
    rw [zpow_add₀ two_ne_zero, zpow_natCast, mul_comm x,
      mul_div_mul_left _ _ (zpow_ne_zero e two_ne_zero)]
  rw [hscale]
  exact hx.shiftRight k

/-- There is no shift to a smaller exponent. -/
theorem shiftToExponent_of_le (h : target ≤ e) :
    shiftToExponent m e .exact target = (⟨m, false, false⟩, e) := by
  have hk : (target - e).toNat = 0 := by omega
  rw [shiftToExponent, hk]
  exact congrArg (Prod.mk _) (Int.add_zero e)

theorem mantissa_ofMantissaAndAccuracy (m : Nat) (accuracy : Accuracy) :
    (ExtendedMantissa.ofMantissaAndAccuracy m accuracy).mantissa = m := by
  cases accuracy with
  | exact => rfl
  | inexact o => cases o <;> rfl

/-- The exponent of the highest bit of a number, from its mantissa. -/
theorem lt_two_pow_log2 (hx : Holds (.ofMantissaAndAccuracy m accuracy) x) :
    x * 2 ^ e < 2 ^ (m.log2 + 1 + e) := by
  have hlt := hx.lt
  rw [mantissa_ofMantissaAndAccuracy] at hlt
  have hlog : (m : ℚ) + 1 ≤ 2 ^ (m.log2 + 1) := by
    exact_mod_cast Nat.lt_log2_self
  rw [zpow_add₀ two_ne_zero]
  refine mul_lt_mul_of_pos_right ?_ (zpow_pos two_pos e)
  exact lt_of_lt_of_le hlt (by exact_mod_cast hlog)

/-- What a significand stands for is at least its leading bit. -/
theorem two_pow_log2_le (hx : Holds (.ofMantissaAndAccuracy m accuracy) x) (hm : m ≠ 0) :
    2 ^ (m.log2 + e) ≤ x * 2 ^ e := by
  have hle := hx.le
  rw [mantissa_ofMantissaAndAccuracy] at hle
  have hlog : (2 : ℚ) ^ m.log2 ≤ m := by
    exact_mod_cast Nat.log2_self_le hm
  rw [zpow_add₀ two_ne_zero]
  refine mul_le_mul_of_nonneg_right ?_ (le_of_lt (zpow_pos two_pos e))
  exact le_trans (by exact_mod_cast hlog) hle

end Shift

namespace RoundsTo

variable {m : Nat} {e : Int} {r : ℚ}

/-- A number that rounds to a double is at most half a step away. -/
theorem bounds (h : RoundsTo m e r) :
    (m - gapBelow m e) * 2 ^ e ≤ r ∧ r ≤ (m + 1 / 2) * 2 ^ e := by
  have hgap := gapBelow_pos m e
  have hle : (m - gapBelow m e) * 2 ^ e ≤ (m + 1 / 2) * 2 ^ e :=
    mul_le_mul_of_nonneg_right (by linarith) (le_of_lt (zpow_pos two_pos e))
  rcases h with ⟨hlow, hhigh⟩ | ⟨-, rfl | rfl⟩
  · exact ⟨le_of_lt hlow, le_of_lt hhigh⟩
  · exact ⟨le_refl _, hle⟩
  · exact ⟨hle, le_refl _⟩

/-- The same in steps of the exponent. -/
theorem scaled (h : RoundsTo m e r) :
    (m - gapBelow m e < r / 2 ^ e ∧ r / 2 ^ e < m + 1 / 2)
      ∨ (m % 2 = 0 ∧ (r / 2 ^ e = m - gapBelow m e ∨ r / 2 ^ e = m + 1 / 2)) := by
  have hpos : (0 : ℚ) < 2 ^ e := zpow_pos two_pos e
  rw [lt_div_iff₀ hpos, div_lt_iff₀ hpos, div_eq_iff hpos.ne', div_eq_iff hpos.ne']
  exact h

/-- Such a number is below the power of two above the significands. -/
theorem lt_two_pow (h : RoundsTo m e r) (hc : Canonical m e) : r < 2 ^ (53 + e) := by
  have hm : (m : ℚ) + 1 ≤ 2 ^ 53 := by
    exact_mod_cast hc.lt
  refine lt_of_le_of_lt h.bounds.2 ?_
  rw [zpow_add₀ two_ne_zero, zpow_ofNat]
  refine mul_lt_mul_of_pos_right ?_ (zpow_pos two_pos e)
  linarith

/-- Only the least normal significand has numbers below it in the binade before. -/
theorem eq_of_lt (h : RoundsTo m e r) (hnormal : 2 ^ 52 ≤ m) (hlt : r < 2 ^ (52 + e)) :
    m = 2 ^ 52 ∧ 2 ^ (51 + e) ≤ r := by
  have hpos : (0 : ℚ) ≤ 2 ^ e := le_of_lt (zpow_pos two_pos e)
  have hm : m = 2 ^ 52 := by
    by_contra hne
    have hsucc : (2 : ℚ) ^ 52 + 1 ≤ m := by
      exact_mod_cast Nat.lt_of_le_of_ne hnormal (Ne.symm hne)
    refine absurd hlt (not_lt.mpr (le_trans ?_ h.bounds.1))
    rw [zpow_add₀ two_ne_zero, zpow_ofNat, gapBelow, if_neg (fun h => hne h.1)]
    exact mul_le_mul_of_nonneg_right (by linarith) hpos
  refine ⟨hm, le_trans ?_ h.bounds.1⟩
  have hgap := gapBelow_le m e
  rw [zpow_add₀ two_ne_zero, zpow_ofNat]
  refine mul_le_mul_of_nonneg_right ?_ hpos
  rw [hm] at hgap ⊢
  push_cast
  linarith

/-- The significand is the whole number that is nearest. -/
theorem near (h : RoundsTo m e r) :
    (m - 1 / 2 < r / 2 ^ e ∧ r / 2 ^ e < m + 1 / 2)
      ∨ (m % 2 = 0 ∧ (r / 2 ^ e = m - 1 / 2 ∨ r / 2 ^ e = m + 1 / 2)) := by
  have hscaled := h.scaled
  rw [gapBelow] at hscaled
  split at hscaled
  · rcases hscaled with ⟨hlow, hhigh⟩ | ⟨heven, hlow | hhigh⟩
    · exact Or.inl ⟨by linarith, hhigh⟩
    · exact Or.inl ⟨by linarith, by linarith⟩
    · exact Or.inr ⟨heven, Or.inr hhigh⟩
  · exact hscaled

/-- Just below a power of two, the same is so of twice the significand. -/
theorem near_below (h : RoundsTo (2 ^ 52) e r) (he : leastExponent < e)
    (hlt : r < 2 ^ (52 + e)) :
    (((2 ^ 53 : Nat) : ℚ) - 1 / 2 < r / 2 ^ (e - 1)
        ∧ r / 2 ^ (e - 1) < ((2 ^ 53 : Nat) : ℚ) + 1 / 2)
      ∨ (2 ^ 53 % 2 = 0 ∧ (r / 2 ^ (e - 1) = ((2 ^ 53 : Nat) : ℚ) - 1 / 2
        ∨ r / 2 ^ (e - 1) = ((2 ^ 53 : Nat) : ℚ) + 1 / 2)) := by
  have hdouble : r / 2 ^ (e - 1) = 2 * (r / 2 ^ e) := by
    rw [zpow_sub_one₀ two_ne_zero]
    field_simp
  have hlow : (2 : ℚ) ^ 52 - 1 / 4 ≤ r / 2 ^ e := by
    have hscaled := h.scaled
    rw [gapBelow, if_pos ⟨rfl, he⟩] at hscaled
    push_cast at hscaled
    rcases hscaled with ⟨hlow, -⟩ | ⟨-, hlow | hhigh⟩ <;> linarith
  have hhigh : r / 2 ^ e < (2 : ℚ) ^ 52 := by
    rw [div_lt_iff₀ (zpow_pos two_pos e)]
    rwa [zpow_add₀ two_ne_zero] at hlt
  rw [hdouble]
  push_cast
  rcases eq_or_lt_of_le hlow with heq | hlt'
  · exact Or.inr ⟨by decide, Or.inl (by linarith)⟩
  · exact Or.inl ⟨by linarith, by linarith⟩

end RoundsTo

section Rounding

variable {m n : Nat} {e d : Int} {accuracy : Accuracy} {x : ℚ}

/-- The first shift stops at the exponent of the double, or one step before it where the number is
just below a power of two. -/
theorem target_eq (hc : Canonical m e) (hr : RoundsTo m e (x * 2 ^ d))
    (hx : Holds (.ofMantissaAndAccuracy n accuracy) x)
    (hd : d ≤ max (n.log2 + d - 52) leastExponent) :
    max (n.log2 + d - 52) leastExponent = e
      ∨ (max (n.log2 + d - 52) leastExponent = e - 1 ∧ m = 2 ^ 52 ∧ x * 2 ^ d < 2 ^ (52 + e)) := by
  have hleast := hc.least
  have hbelow : x * 2 ^ d < 2 ^ (n.log2 + 1 + d) := lt_two_pow_log2 hx
  -- a mantissa of zero has no highest bit, but then the exponent is the least one
  have hhighest {k : Int} (hk : leastExponent ≤ k - 52) (hlt : x * 2 ^ d < 2 ^ k) :
      n.log2 + d < k := by
    rcases Nat.eq_zero_or_pos n with rfl | hpos
    · rw [Nat.log2_zero] at hd ⊢
      omega
    · have hle := lt_of_le_of_lt (two_pow_log2_le hx (Nat.pos_iff_ne_zero.mp hpos)) hlt
      exact (zpow_lt_zpow_iff_right₀ (by norm_num)).mp hle
  have hupper : n.log2 + d < 53 + e := hhighest (by omega) (hr.lt_two_pow hc)
  by_cases he : e = leastExponent
  · exact Or.inl (by omega)
  · have hnormal := hc.normal.resolve_right he
    by_cases hge : 2 ^ (52 + e) ≤ x * 2 ^ d
    · have hlow := (zpow_lt_zpow_iff_right₀ (by norm_num)).mp (lt_of_le_of_lt hge hbelow)
      exact Or.inl (by omega)
    · have hlt := not_le.mp hge
      obtain ⟨hm, hlow⟩ := hr.eq_of_lt hnormal hlt
      have hlow' := (zpow_lt_zpow_iff_right₀ (by norm_num)).mp (lt_of_le_of_lt hlow hbelow)
      have hhigh := hhighest (by omega) hlt
      exact Or.inr ⟨by omega, hm, hlt⟩

/-- A significand of a double needs no second shift. -/
theorem shiftToTarget_canonical (hc : Canonical m e) :
    shiftToTargetExponent Format.binary64 m e .exact = (⟨m, false, false⟩, e) := by
  have hlog : m.log2 < 53 := (Nat.log2_lt (Nat.pos_iff_ne_zero.mp hc.pos)).mpr hc.lt
  have hleast := hc.least
  rw [shiftToTargetExponent, targetExponent_eq]
  exact shiftToExponent_of_le (by omega)

/-- A significand that has grown to fifty-four bits is shifted once more. -/
theorem shiftToTarget_overflow (he : leastExponent < e) :
    shiftToTargetExponent Format.binary64 (2 ^ 53) (e - 1) .exact
      = (⟨2 ^ 52, false, false⟩, e) := by
  have htarget : max (((2 ^ 53 : Nat).log2 : Int) + (e - 1) - 52) leastExponent = e := by
    rw [Nat.log2_two_pow]
    omega
  have hk : (e - (e - 1)).toNat = 1 := by omega
  rw [shiftToTargetExponent, targetExponent_eq, htarget, shiftToExponent, hk]
  exact congrArg (Prod.mk _) (by omega : e - 1 + ((1 : Nat) : Int) = e)

/-- What rounds to a double is rounded to it. -/
theorem roundWithAccuracy_eq (s : Sign) (hc : Canonical m e) (hr : RoundsTo m e (x * 2 ^ d))
    (hx : Holds (.ofMantissaAndAccuracy n accuracy) x)
    (hd : d ≤ max (n.log2 + d - 52) leastExponent) :
    roundWithAccuracy Format.binary64 s n d accuracy = .finite s m e hc.pos := by
  obtain ⟨hexponent, hholds⟩ := holds_shiftToExponent hx hd
  have hfirst : shiftToTargetExponent Format.binary64 n d accuracy
      = shiftToExponent n d accuracy (max (n.log2 + d - 52) leastExponent) := by
    rw [shiftToTargetExponent, targetExponent_eq]
  rw [roundWithAccuracy]
  dsimp only
  rw [hfirst, hexponent]
  rcases target_eq hc hr hx hd with htarget | ⟨htarget, rfl, hlt⟩
  · rw [htarget] at hholds ⊢
    rw [hholds.roundedMantissa_eq hr.near, shiftToTarget_canonical hc,
      dif_neg (Nat.pos_iff_ne_zero.mp hc.pos)]
  · have he : leastExponent < e := by omega
    rw [htarget] at hholds ⊢
    rw [hholds.roundedMantissa_eq (hr.near_below he hlt), shiftToTarget_overflow he]
    rfl

end Rounding

end TreeGrammar.Number
