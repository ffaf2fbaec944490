import Mathlib.Data.Nat.Cast.Order.Field
import TreeGrammar.Proofs.Number.Nearest

/-! # Shortest — the digits that are written round to the double

    The interval of a double is kept in whole numbers, as multiples of one power of two
    that may lie above or below one, and a candidate is compared with it after both are
    multiplied by a power of ten.  Whatever is found lies in the interval.  On the grid
    of seventeen digits something is found: its step is less than that of the double,
    so one of the two points around the value is near enough. -/

namespace TreeGrammar.Number

variable {m : Nat} {e : Int}

/-- A power is a quotient of two whole ones. -/
theorem zpow_mul_pow_toNat {b : ℚ} (hb : b ≠ 0) (k : Int) :
    b ^ k * b ^ (-k).toNat = b ^ k.toNat := by
  rw [← zpow_natCast, ← zpow_natCast, ← zpow_add₀ hb]
  congr 1
  omega

section Scaled

variable {a b : Nat} {p q unit : ℚ} (hunit : 0 < unit) (ha : (a : ℚ) = p * unit)
  (hb : (b : ℚ) = q * unit)

include hunit ha hb

/-- Whole numbers of one unit are compared without it. -/
theorem lt_iff_of_scaled : a < b ↔ p < q := by
  rw [← @Nat.cast_lt ℚ, ha, hb, mul_lt_mul_iff_of_pos_right hunit]

/-- Scaled numbers are equal exactly if the numbers are. -/
theorem eq_iff_of_scaled : a = b ↔ p = q := by
  rw [← @Nat.cast_inj ℚ, ha, hb, mul_left_inj' hunit.ne']

end Scaled

section Interval

variable (negative : Bool)

/-- Every interval is scaled by something positive. -/
theorem scale_pos : 0 < (Interval.of ⟨negative, m, e⟩).scale :=
  Nat.pow_pos (by decide)

/-- The unit of the interval. -/
theorem two_zpow_mul_scale :
    (2 : ℚ) ^ e * (Interval.of ⟨negative, m, e⟩).scale = 4 * (2 ^ (e - 2).toNat : Nat) := by
  show (2 : ℚ) ^ e * (2 ^ (2 - e).toNat : Nat) = _
  have h := zpow_mul_pow_toNat (b := 2) two_ne_zero (e - 2)
  rw [neg_sub] at h
  have he : (2 : ℚ) ^ e = 4 * 2 ^ (e - 2) := by
    rw [zpow_sub₀ two_ne_zero]
    norm_num
    ring
  push_cast
  rw [he, mul_assoc, h]

/-- The scaled value is the double itself. -/
theorem value_eq :
    ((Interval.of ⟨negative, m, e⟩).value : ℚ)
      = m * 2 ^ e * (Interval.of ⟨negative, m, e⟩).scale := by
  rw [mul_assoc, two_zpow_mul_scale]
  show ((4 * m * 2 ^ (e - 2).toNat : Nat) : ℚ) = _
  push_cast
  ring

/-- The upper end is half a unit above it. -/
theorem high_eq :
    ((Interval.of ⟨negative, m, e⟩).high : ℚ)
      = (m + 1 / 2) * 2 ^ e * (Interval.of ⟨negative, m, e⟩).scale := by
  rw [mul_assoc, two_zpow_mul_scale]
  show (((4 * m + 2) * 2 ^ (e - 2).toNat : Nat) : ℚ) = _
  push_cast
  ring

/-- The lower end is below it by the gap there. -/
theorem low_eq (hm : 0 < m) :
    ((Interval.of ⟨negative, m, e⟩).low : ℚ)
      = (m - gapBelow m e) * 2 ^ e * (Interval.of ⟨negative, m, e⟩).scale := by
  rw [mul_assoc, two_zpow_mul_scale, gapBelow]
  show (((4 * m - if m = 2 ^ 52 ∧ leastExponent < e then 1 else 2) * 2 ^ (e - 2).toNat : Nat) : ℚ)
    = _
  split
  · rw [Nat.cast_mul, Nat.cast_sub (by omega)]
    push_cast
    ring
  · rw [Nat.cast_mul, Nat.cast_sub (by omega)]
    push_cast
    ring

/-- Ends of the interval and points of a grid are counted in one unit. -/
theorem unit_pos (k : Int) :
    (0 : ℚ) < (Interval.of ⟨negative, m, e⟩).scale * (10 ^ (-k).toNat : Nat) := by
  have hscale : (0 : ℚ) < (Interval.of ⟨negative, m, e⟩).scale := by
    exact_mod_cast scale_pos negative
  exact mul_pos hscale (by positivity)

/-- The candidates are scaled in the same way. -/
theorem point_eq (c : Nat) (k : Int) :
    ((c * 10 ^ k.toNat * (Interval.of ⟨negative, m, e⟩).scale : Nat) : ℚ)
      = c * 10 ^ k * ((Interval.of ⟨negative, m, e⟩).scale * (10 ^ (-k).toNat : Nat)) := by
  push_cast
  rw [← zpow_mul_pow_toNat (by norm_num : (10 : ℚ) ≠ 0) k]
  ring

/-- A point of the interval rounds to its double, and only such a point. -/
theorem holds_iff (hm : 0 < m) (c : Nat) (k : Int) :
    (Interval.of ⟨negative, m, e⟩).holds c k = true ↔ RoundsTo m e (c * 10 ^ k) := by
  have hunit := unit_pos negative k (m := m) (e := e)
  have hx := point_eq negative c k (m := m) (e := e)
  have hlow : (((Interval.of ⟨negative, m, e⟩).low * 10 ^ (-k).toNat : Nat) : ℚ)
      = (m - gapBelow m e) * 2 ^ e
        * ((Interval.of ⟨negative, m, e⟩).scale * (10 ^ (-k).toNat : Nat)) := by
    rw [Nat.cast_mul, low_eq negative hm, mul_assoc]
  have hhigh : (((Interval.of ⟨negative, m, e⟩).high * 10 ^ (-k).toNat : Nat) : ℚ)
      = (m + 1 / 2) * 2 ^ e
        * ((Interval.of ⟨negative, m, e⟩).scale * (10 ^ (-k).toNat : Nat)) := by
    rw [Nat.cast_mul, high_eq negative, mul_assoc]
  show (decide (_ < _) && decide (_ < _) || (m % 2 == 0 && (_ == _ || _ == _))) = true ↔ _
  simp only [Bool.or_eq_true, Bool.and_eq_true, decide_eq_true_iff, beq_iff_eq]
  exact or_congr
    (and_congr (lt_iff_of_scaled hunit hlow hx) (lt_iff_of_scaled hunit hx hhigh))
    (and_congr_right fun _ =>
      or_congr (eq_iff_of_scaled hunit hx hlow) (eq_iff_of_scaled hunit hx hhigh))

/-- The largest grid point up to the value of the double. -/
theorem floor_spec (k : Int) {c : Nat}
    (hc : c = (Interval.of ⟨negative, m, e⟩).value * 10 ^ (-k).toNat
      / (10 ^ k.toNat * (Interval.of ⟨negative, m, e⟩).scale)) :
    (c * 10 ^ k : ℚ) ≤ m * 2 ^ e ∧ (m * 2 ^ e : ℚ) < (c + 1 : Nat) * 10 ^ k := by
  have hunit := unit_pos negative k (m := m) (e := e)
  have hvalue : (((Interval.of ⟨negative, m, e⟩).value * 10 ^ (-k).toNat : Nat) : ℚ)
      = m * 2 ^ e * ((Interval.of ⟨negative, m, e⟩).scale * (10 ^ (-k).toNat : Nat)) := by
    rw [Nat.cast_mul, value_eq negative, mul_assoc]
  have hpoint (c : Nat) : ((c * (10 ^ k.toNat * (Interval.of ⟨negative, m, e⟩).scale) : Nat) : ℚ)
      = c * 10 ^ k * ((Interval.of ⟨negative, m, e⟩).scale * (10 ^ (-k).toNat : Nat)) := by
    rw [← Nat.mul_assoc]
    exact point_eq negative c k
  have hpos : 0 < 10 ^ k.toNat * (Interval.of ⟨negative, m, e⟩).scale :=
    Nat.mul_pos (Nat.pow_pos (by decide)) (scale_pos negative)
  constructor
  · refine not_lt.mp fun h => ?_
    have hlt := (lt_iff_of_scaled hunit hvalue (hpoint c)).mpr h
    rw [hc] at hlt
    exact absurd (Nat.div_mul_le_self _ _) (Nat.not_le.mpr hlt)
  · refine (lt_iff_of_scaled hunit hvalue (hpoint (c + 1))).mp ?_
    rw [hc]
    exact Nat.lt_mul_of_div_lt (Nat.lt_succ_self _) hpos

end Interval

/-- What is found on a grid lies in the interval. -/
theorem Interval.holds_of_nearest? {i : Interval} {k : Int} {d : Decimal}
    (h : i.nearest? k = some d) : i.holds d.digits d.exponent = true := by
  rw [Interval.nearest?] at h
  split at h
  · rename_i hfloor hceil
    cases h
    dsimp only
    split
    · exact hfloor
    · exact hceil
  · rename_i hfloor hceil
    cases h
    exact hfloor
  · rename_i hfloor hceil
    cases h
    exact hceil
  · cases h

/-- Something is found where one of the two points around the value lies in the interval. -/
theorem Interval.exists_nearest? {i : Interval} {k : Int} {c : Nat}
    (hc : c = i.value * 10 ^ (-k).toNat / (10 ^ k.toNat * i.scale))
    (h : i.holds c k = true ∨ i.holds (c + 1) k = true) : ∃ d, i.nearest? k = some d := by
  subst hc
  rw [Interval.nearest?]
  split
  · exact ⟨_, rfl⟩
  · exact ⟨_, rfl⟩
  · exact ⟨_, rfl⟩
  · rename_i hfloor hceil
    rcases h with h | h
    · exact absurd (hfloor.symm.trans h) Bool.false_ne_true
    · exact absurd (hceil.symm.trans h) Bool.false_ne_true

/-- A grid whose step is less than that of the double has a point in its interval. -/
theorem exists_nearest? (negative : Bool) (hc : Canonical m e) {k : Int}
    (hk : (10 : ℚ) ^ (k + 16) ≤ m * 2 ^ e) :
    ∃ d, (Interval.of ⟨negative, m, e⟩).nearest? k = some d := by
  refine Interval.exists_nearest? rfl ?_
  obtain ⟨hfloor, hceil⟩ := floor_spec negative k (m := m) (e := e) rfl
  generalize (Interval.of ⟨negative, m, e⟩).value * 10 ^ (-k).toNat
    / (10 ^ k.toNat * (Interval.of ⟨negative, m, e⟩).scale) = c at hfloor hceil ⊢
  rw [holds_iff negative hc.pos, holds_iff negative hc.pos]
  have hstep : (0 : ℚ) < 2 ^ e := zpow_pos two_pos e
  have hgrid : (10 : ℚ) ^ k * 10 ^ 16 ≤ m * 2 ^ e := by
    rwa [zpow_add₀ (by norm_num)] at hk
  push_cast at hceil
  -- where the interval is narrower below, the point above the value is near enough
  by_cases hbelow : m = 2 ^ 52 ∧ leastExponent < e
  · refine Or.inr (Or.inl ⟨?_, ?_⟩)
    · rw [gapBelow, if_pos hbelow]
      push_cast
      linarith
    · have hm : (m : ℚ) * 2 ^ e = 2 ^ 52 * 2 ^ e := by
        rw [hbelow.1]
        norm_num
      push_cast
      linarith
  · have hm : (m : ℚ) * 2 ^ e ≤ 2 ^ 53 * 2 ^ e :=
      mul_le_mul_of_nonneg_right (by exact_mod_cast le_of_lt hc.lt) (le_of_lt hstep)
    -- the step of the grid is below that of the double, so one of the two points is near
    by_cases hnear : (m : ℚ) * 2 ^ e < c * 10 ^ k + 1 / 2 * 2 ^ e
    · refine Or.inl (Or.inl ⟨?_, ?_⟩)
      · rw [gapBelow, if_neg hbelow]
        linarith
      · linarith
    · refine Or.inr (Or.inl ⟨?_, ?_⟩)
      · rw [gapBelow, if_neg hbelow]
        push_cast
        linarith
      · push_cast
        linarith

/-- The power of ten at or below a ratio. -/
theorem tenfold_le {num den : Nat} (hnum : 0 < num) (hden : 0 < den) :
    (10 : ℚ) ^ tenfold num den ≤ num / den := by
  have hdenpos : (0 : ℚ) < den := by exact_mod_cast hden
  rw [tenfold]
  by_cases hle : den ≤ num
  · have hlength : 0 < (digitsOf (num / den)).length := Nat.length_toDigits_pos
    have hexponent : ((digitsOf (num / den)).length - 1 : Int)
        = ((digitsOf (num / den)).length - 1 : Nat) := by omega
    rw [if_pos hle, hexponent, zpow_natCast]
    calc (10 : ℚ) ^ ((digitsOf (num / den)).length - 1) ≤ (num / den : Nat) := by
          exact_mod_cast ten_pow_length_le (Nat.div_pos hle hden)
      _ ≤ num / den := Nat.cast_div_le
  · rw [if_neg hle, zpow_neg, zpow_natCast, inv_eq_one_div, div_le_div_iff₀ (by positivity) hdenpos,
      one_mul]
    have hlt := (Nat.div_lt_iff_lt_mul hnum).mp (lt_ten_pow_length ((den - 1) / num))
    have hden' : den ≤ num * 10 ^ (digitsOf ((den - 1) / num)).length := by
      rw [Nat.mul_comm]
      omega
    exact_mod_cast hden'

/-- The digits that are written round to the double. -/
theorem roundsTo_shortest (negative : Bool) (hc : Canonical m e) :
    RoundsTo m e ((shortest ⟨negative, m, e⟩).digits
      * 10 ^ (shortest ⟨negative, m, e⟩).exponent) := by
  have hscale : (0 : ℚ) < (Interval.of ⟨negative, m, e⟩).scale := by
    exact_mod_cast scale_pos negative
  have hratio : ((Interval.of ⟨negative, m, e⟩).value : ℚ) / (Interval.of ⟨negative, m, e⟩).scale
      = m * 2 ^ e := by
    rw [value_eq negative, mul_div_cancel_right₀ _ hscale.ne']
  have hvalue : 0 < (Interval.of ⟨negative, m, e⟩).value :=
    Nat.mul_pos (Nat.mul_pos (by decide) hc.pos) (Nat.pow_pos (by decide))
  have htop := tenfold_le hvalue (scale_pos negative (m := m) (e := e))
  rw [hratio] at htop
  rw [shortest]
  generalize tenfold (Interval.of ⟨negative, m, e⟩).value (Interval.of ⟨negative, m, e⟩).scale = top
    at htop ⊢
  -- the last of the grids that are tried has seventeen digits
  cases hfound : (List.range 17).findSome? fun (n : Nat) =>
      (Interval.of ⟨negative, m, e⟩).nearest? (top - n) with
  | none =>
      have hlast := List.findSome?_eq_none_iff.mp hfound 16 (by decide)
      have hk : (10 : ℚ) ^ (top - (16 : Nat) + 16) ≤ m * 2 ^ e := by
        rw [show top - (16 : Nat) + 16 = top by omega]
        exact htop
      obtain ⟨d, hd⟩ := exists_nearest? negative hc hk
      rw [hd] at hlast
      cases hlast
  | some d =>
      obtain ⟨n, -, hn⟩ := List.exists_of_findSome?_eq_some hfound
      exact (holds_iff negative hc.pos _ _).mp (Interval.holds_of_nearest? hn)

end TreeGrammar.Number
