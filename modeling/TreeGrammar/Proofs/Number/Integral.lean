import TreeGrammar.Proofs.Number.Nearest

/-! # Integers as doubles — the nearest one

    An integer beside a double is converted to one.  Every number that is at least
    `2 ^ 52` steps of its exponent lies between two neighbouring significands and rounds
    to one of them, to the even one from half way; from the greatest significand it may
    round up to the next power of two.  The conversion gives the double that an integer
    of 64 bits rounds to. -/

namespace TreeGrammar.Number

open Float.Model (UnpackedFloat)

variable {m : Nat} {e : Int}

/-- The double is the one that the integer rounds to; zero has no sign. -/
def IsNearest (n : Int) (x : Float) : Prop :=
  if n = 0 then x = 0.0
  else ∃ m e, Canonical m e ∧ RoundsTo m e n.natAbs ∧ x = double (decide (n < 0)) m e

/-- A number is nearer to the significand below it than to the next one, or half way and that one
is even. -/
theorem RoundsTo.down {q : Nat} {f : ℚ} (hf : 0 ≤ f)
    (hhalf : f < 1 / 2 ∨ f = 1 / 2 ∧ q % 2 = 0) : RoundsTo q e ((q + f) * 2 ^ e) := by
  have hpos : (0 : ℚ) < 2 ^ e := zpow_pos two_pos e
  have hgap := gapBelow_pos q e
  have hlow : (q - gapBelow q e) * 2 ^ e < (q + f) * 2 ^ e :=
    mul_lt_mul_of_pos_right (by linarith) hpos
  rcases hhalf with hless | ⟨rfl, heven⟩
  · exact .inl ⟨hlow, mul_lt_mul_of_pos_right (by linarith) hpos⟩
  · exact .inr ⟨heven, .inr rfl⟩

/-- A number is nearer to the significand above it, or half way and that one is even. -/
theorem RoundsTo.up {q : Nat} {f : ℚ} (hf : f < 1) (hgap : gapBelow (q + 1) e = 1 / 2)
    (hhalf : 1 / 2 < f ∨ f = 1 / 2 ∧ q % 2 = 1) : RoundsTo (q + 1) e ((q + f) * 2 ^ e) := by
  have hpos : (0 : ℚ) < 2 ^ e := zpow_pos two_pos e
  rw [RoundsTo, hgap]
  push_cast
  rcases hhalf with hmore | ⟨rfl, hodd⟩
  · exact .inl ⟨mul_lt_mul_of_pos_right (by linarith) hpos,
      mul_lt_mul_of_pos_right (by linarith) hpos⟩
  · refine .inr ⟨by omega, .inl ?_⟩
    ring

/-- Above the greatest significand is the least one of the next exponent. -/
theorem RoundsTo.carry {f : ℚ} (he : leastExponent ≤ e) (hf : f < 1) (hhalf : 1 / 2 ≤ f) :
    RoundsTo (2 ^ 52) (e + 1) (((2 ^ 53 - 1 : Nat) + f) * 2 ^ e) := by
  have hpos : (0 : ℚ) < 2 ^ e := zpow_pos two_pos e
  have hgap : gapBelow (2 ^ 52) (e + 1) = 1 / 4 := if_pos ⟨rfl, by omega⟩
  have hnext : (2 : ℚ) ^ (e + 1) = 2 * 2 ^ e := by rw [zpow_add_one₀ two_ne_zero, mul_comm]
  rw [RoundsTo, hgap, hnext, ← mul_assoc, ← mul_assoc]
  push_cast
  rcases hhalf.lt_or_eq with hmore | rfl
  · exact .inl ⟨mul_lt_mul_of_pos_right (by linarith) hpos,
      mul_lt_mul_of_pos_right (by linarith) hpos⟩
  · refine .inr ⟨by decide, .inl ?_⟩
    norm_num

/-- A number with as many bits before the point as a significand has rounds to a double. -/
theorem exists_roundsTo {q : Nat} (hq : 2 ^ 52 ≤ q) (hq' : q < 2 ^ 53) (he : leastExponent ≤ e)
    (he' : e < 971) {f : ℚ} (hf : 0 ≤ f) (hf' : f < 1) :
    ∃ m e', Canonical m e' ∧ RoundsTo m e' ((q + f) * 2 ^ e) := by
  by_cases hdown : f < 1 / 2 ∨ f = 1 / 2 ∧ q % 2 = 0
  · exact ⟨q, e, ⟨by omega, hq', he, by omega, .inl hq⟩, .down hf hdown⟩
  · rw [not_or, not_lt, not_and] at hdown
    obtain ⟨hhalf, hodd⟩ := hdown
    by_cases hlast : q + 1 = 2 ^ 53
    · obtain rfl : q = 2 ^ 53 - 1 := by omega
      exact ⟨2 ^ 52, e + 1, ⟨by decide, by decide, by omega, by omega, .inl (Nat.le_refl _)⟩,
        .carry he hf' hhalf⟩
    · refine ⟨q + 1, e, ⟨by omega, by omega, he, by omega, .inl (by omega)⟩, .up hf' ?_ ?_⟩
      · exact if_neg fun h => by omega
      · rcases hhalf.lt_or_eq with hmore | rfl
        · exact .inl hmore
        · exact .inr ⟨rfl, by have := hodd rfl; omega⟩

/-- Every whole number of 64 bits rounds to a double. -/
theorem exists_roundsTo_natCast {n : Nat} (hpos : 0 < n) (hlt : n < 2 ^ 64) :
    ∃ m e, Canonical m e ∧ RoundsTo m e n := by
  by_cases hsmall : n < 2 ^ 53
  · have hc := canonical_shift hpos hsmall (by decide : (-1000 : Int) ≤ 0) (by decide)
    refine ⟨_, _, hc, ?_⟩
    have hself := RoundsTo.self (n * 2 ^ (52 - n.log2)) (0 - (52 - n.log2 : Nat))
    rwa [shift_value, zpow_zero, mul_one] at hself
  -- the bits after the first fifty-three are the fraction
  · have hlog : 53 ≤ n.log2 := (Nat.le_log2 hpos.ne').mpr (by omega)
    have hlog' : n.log2 < 64 := (Nat.log2_lt hpos.ne').mpr hlt
    obtain ⟨s, hs⟩ : ∃ s, n.log2 = 52 + s := ⟨n.log2 - 52, by omega⟩
    have hscale : 0 < 2 ^ s := Nat.two_pow_pos s
    have hlow : 2 ^ 52 ≤ n / 2 ^ s := by
      rw [Nat.le_div_iff_mul_le hscale, ← Nat.pow_add, ← hs]
      exact Nat.log2_self_le hpos.ne'
    have hhigh : n / 2 ^ s < 2 ^ 53 := by
      rw [Nat.div_lt_iff_lt_mul hscale, ← Nat.pow_add]
      have hbits := Nat.lt_log2_self (n := n)
      rwa [hs, show 52 + s + 1 = 53 + s by omega] at hbits
    have hrest : n % 2 ^ s < 2 ^ s := Nat.mod_lt n hscale
    have hvalue : (((n / 2 ^ s : Nat) : ℚ) + (n % 2 ^ s : Nat) / 2 ^ s) * 2 ^ (s : Int) = n := by
      have hdivision : ((2 ^ s * (n / 2 ^ s) + n % 2 ^ s : Nat) : ℚ) = n := by
        rw [Nat.div_add_mod]
      rw [zpow_natCast, add_mul, div_mul_cancel₀ _ (by positivity), ← hdivision]
      push_cast
      ring
    have hfraction : ((n % 2 ^ s : Nat) : ℚ) / 2 ^ s < 1 := by
      rw [div_lt_one (by positivity)]
      exact_mod_cast hrest
    have hleast : leastExponent = -1074 := rfl
    obtain ⟨m, e, hc, hr⟩ := exists_roundsTo (e := s) hlow hhigh (by omega) (by omega)
      (by positivity) hfraction
    rw [hvalue] at hr
    exact ⟨m, e, hc, hr⟩

/-- A whole number is converted to the double that it rounds to. -/
theorem ofNat_eq (hc : Canonical m e) {n : Nat} (hpos : 0 < n) (hr : RoundsTo m e n) :
    Float.ofNat n = double false m e := by
  show Float.ofScientific n false 0 = _
  by_cases hfast : n < 2 ^ 53
  · refine ofScientific_fast hc hpos hfast (Nat.zero_le 22) false ?_
    rw [if_neg Bool.false_ne_true, pow_zero, mul_one]
    exact hr
  · have hrange : ¬ (n < 2 ^ 53 ∧ 0 ≤ 22) := fun h => hfast h.1
    rw [Float.ofScientific, dif_neg hrange, double, dif_neg hc.pos.ne']
    have hr' : RoundsTo m e (n * 10 ^ (0 : Int)) := by rwa [zpow_zero, mul_one]
    have hround := ofScientific_eq hc hpos.ne' (k := 0) (by decide) (by omega) hr'
    exact congrArg (fun u => Float.ofModel (.pack u)) hround

/-- An integer of 64 bits is converted to the nearest double. -/
theorem isNearest_ofInt (n : Int64) : IsNearest n.toInt (Float.ofInt n.toInt) := by
  have hlow := n.le_toInt
  have hhigh := n.toInt_lt
  rw [IsNearest]
  split
  · next hzero =>
      rw [hzero]
      rfl
  · next hzero =>
      obtain ⟨m, e, hc, hr⟩ := exists_roundsTo_natCast (n := n.toInt.natAbs) (by omega) (by omega)
      refine ⟨m, e, hc, hr, ?_⟩
      have hmagnitude := ofNat_eq hc (by omega) hr
      cases hn : n.toInt with
      | ofNat k =>
          have hsign : decide (Int.ofNat k < 0) = false :=
            decide_eq_false (Int.not_lt.mpr (Int.natCast_nonneg k))
          rw [hn] at hmagnitude
          rw [hsign]
          exact hmagnitude
      | negSucc k =>
          rw [hn] at hmagnitude
          rw [decide_eq_true (Int.negSucc_lt_zero k)]
          exact (congrArg Float.neg hmagnitude).trans (neg_double (.inl hc))

/-- No integer is converted to a NaN. -/
theorem IsNearest.isNaN {n : Int} {x : Float} (h : IsNearest n x) : x.isNaN = false := by
  rw [IsNearest] at h
  split at h
  · rw [h]
    decide
  · obtain ⟨m, e, hc, -, rfl⟩ := h
    show (double _ m e).toModel.unpack.isNaN = false
    rw [hc.unpack_double]
    rfl

end TreeGrammar.Number
