import Mathlib.Tactic.Ring
import TreeGrammar.Number.Decimal

/-! # Packing — a double and its parts

    A double is its sixty-four bits: the sign, eleven bits of the exponent and
    fifty-two of the fraction.  As a number, the bits are `2 ^ 52` for each step of the
    exponent above the least one, plus the significand, plus the sign's own bit; this
    holds of subnormal numbers and of the others alike, so nothing below splits on them
    twice.  `double` puts a double together in the logical model of floating point,
    and `Canonical` says which significands and exponents are those of a double. -/

namespace TreeGrammar.Number

open Float.Model (Format UnpackedFloat)
open Float.Model.UnpackedFloat

/-- The significand and exponent of a double that is not zero. -/
structure Canonical (m : Nat) (e : Int) : Prop where
  pos : 0 < m
  lt : m < 2 ^ 53
  least : leastExponent ≤ e
  greatest : e ≤ 971
  normal : 2 ^ 52 ≤ m ∨ e = leastExponent

/-- The sign as the model of floating point has it. -/
def signOf (negative : Bool) : Sign :=
  if negative then .negative else .positive

/-- The double `± m · 2 ^ e`. -/
def double (negative : Bool) (m : Nat) (e : Int) : Float :=
  .ofModel (.pack (if h : m = 0 then .zero (signOf negative)
    else .finite (signOf negative) m e (Nat.pos_of_ne_zero h)))

/-! ## The bits -/

section Bits

variable (b : BitVec 64)

/-- The lowest 52 bits of a double are its stored significand. -/
theorem toNat_unpackMantissa :
    (@unpackMantissa Format.binary64 b).toNat = b.toNat % 2 ^ 52 := by
  show (b.extractLsb 51 0).toNat = _
  rw [BitVec.extractLsb_toNat, Nat.shiftRight_zero]

/-- The eleven bits in front of these are its stored exponent. -/
theorem toNat_unpackExponent :
    (@unpackExponent Format.binary64 b).toNat = b.toNat / 2 ^ 52 % 2 ^ 11 := by
  show (b.extractLsb 62 52).toNat = _
  rw [BitVec.extractLsb_toNat, Nat.shiftRight_eq_div_pow]

/-- The first bit is its sign. -/
theorem toNat_unpackSign :
    (@unpackSign Format.binary64 b).toNat = b.toNat / 2 ^ 63 := by
  show (b.extractLsb 63 63).toNat = _
  have hlt := b.isLt
  rw [BitVec.extractLsb_toNat, Nat.shiftRight_eq_div_pow]
  omega

end Bits

/-- The three fields stand behind one another. -/
theorem toNat_packComponents (s : Sign) (e : BitVec 11) (m : BitVec 52) :
    (packComponents Format.binary64 s e m).toNat
      = s.toBitVec.toNat * 2 ^ 63 + e.toNat * 2 ^ 52 + m.toNat := by
  show (s.toBitVec ++ e ++ m).toNat = _
  rw [BitVec.toNat_append, BitVec.toNat_append, ← Nat.shiftLeft_add_eq_or_of_lt m.isLt,
    ← Nat.shiftLeft_add_eq_or_of_lt e.isLt, Nat.shiftLeft_eq, Nat.shiftLeft_eq]
  ring

/-- Two doubles with the same bits are the same. -/
theorem eq_of_toBits {x y : Float} (h : x.toBits.toNat = y.toBits.toNat) : x = y := by
  obtain ⟨⟨a, ha⟩⟩ := x
  obtain ⟨⟨b, hb⟩⟩ := y
  have hab : a = b := UInt64.toNat_inj.mp h
  subst hab
  rfl

/-- The bit of a sign, as a number. -/
theorem toNat_signOf (negative : Bool) : (signOf negative).toBitVec.toNat = negative.toNat := by
  cases negative <;> rfl

theorem ofBitVec_toBitVec (s : Sign) : Sign.ofBitVec s.toBitVec = s := by
  cases s <;> rfl

/-- The binary logarithm of a significand, which tells the subnormal ones. -/
theorem Canonical.log2_eq_iff {m : Nat} {e : Int} (h : Canonical m e) :
    m.log2 + 1 = Format.binary64.mantissaBits ↔ 2 ^ 52 ≤ m := by
  have hne : m ≠ 0 := Nat.pos_iff_ne_zero.mp h.pos
  have hlt : m.log2 < 53 := (Nat.log2_lt hne).mpr h.lt
  show m.log2 + 1 = 53 ↔ _
  rw [← Nat.le_log2 hne]
  omega

/-- The exponent as it is stored. -/
theorem Canonical.biased {m : Nat} {e : Int} (h : Canonical m e) :
    (e + Format.binary64.exponentBias + Format.binary64.mantissaBitsWithoutImplicit).toNat
      = (e - leastExponent).toNat + 1 := by
  have hleast : -1074 ≤ e := h.least
  show (e + 1023 + 52).toNat = (e - -1074).toNat + 1
  omega

/-- A significand and an exponent are packed into components. -/
theorem Canonical.pack_eq {m : Nat} {e : Int} (h : Canonical m e) (s : Sign) :
    UnpackedFloat.pack Format.binary64 (.finite s m e h.pos)
      = if 2 ^ 52 ≤ m then
          packComponents Format.binary64 s (BitVec.ofNat _ ((e - leastExponent).toNat + 1))
            (BitVec.ofNat _ m)
        else packComponents Format.binary64 s 0 (BitVec.ofNat _ m) := by
  have hgreatest := h.greatest
  have hfits : ¬ 2 ^ Format.binary64.exponentBits ≤ (e - leastExponent).toNat + 1 + 1 := by
    show ¬ 2 ^ 11 ≤ (e - -1074).toNat + 1 + 1
    omega
  show (if 2 ^ Format.binary64.exponentBits ≤ (e + Format.binary64.exponentBias
        + Format.binary64.mantissaBitsWithoutImplicit).toNat + 1 then
      packedInfinity Format.binary64 s
    else if m.log2 + 1 = Format.binary64.mantissaBits then
      packComponents Format.binary64 s (BitVec.ofNat 11 (e + Format.binary64.exponentBias
        + Format.binary64.mantissaBitsWithoutImplicit).toNat) (BitVec.ofNat 52 m)
    else packComponents Format.binary64 s 0#11 (BitVec.ofNat 52 m)) = _
  rw [h.biased, if_neg hfits]
  by_cases hm : 2 ^ 52 ≤ m
  · rw [if_pos (h.log2_eq_iff.mpr hm), if_pos hm]
  · rw [if_neg (fun hlog => hm (h.log2_eq_iff.mp hlog)), if_neg hm]
    rfl

/-- The bits of a double, subnormal or not, are a step of `2 ^ 52` for each exponent. -/
theorem toNat_double {negative : Bool} {m : Nat} {e : Int}
    (h : Canonical m e ∨ (m = 0 ∧ e = leastExponent)) :
    (double negative m e).toBits.toNat
      = negative.toNat * 2 ^ 63 + (e - leastExponent).toNat * 2 ^ 52 + m := by
  rcases h with h | ⟨rfl, rfl⟩
  · have hgreatest := h.greatest
    have hlt := h.lt
    have hexponent : (e - leastExponent).toNat + 1 < 2 ^ 11 := by
      show (e - -1074).toNat + 1 < 2 ^ 11
      omega
    rw [double, dif_neg (Nat.pos_iff_ne_zero.mp h.pos)]
    show (UnpackedFloat.pack Format.binary64 _).toNat = _
    rw [h.pack_eq]
    -- the leading bit of a normal significand is stored as one more step of the exponent
    by_cases hm : 2 ^ 52 ≤ m
    · rw [if_pos hm, toNat_packComponents, toNat_signOf, BitVec.toNat_ofNat, BitVec.toNat_ofNat,
        Nat.mod_eq_of_lt hexponent]
      omega
    · have he : e = leastExponent := h.normal.resolve_left hm
      rw [if_neg hm, toNat_packComponents, toNat_signOf, BitVec.toNat_ofNat, he]
      show _ + 0 * 2 ^ 52 + _ = _
      omega
  · cases negative <;> rfl

theorem finite_congr {s s' : Sign} {m m' : Nat} {e e' : Int} {hm : 0 < m} {hm' : 0 < m'}
    (hs : s = s') (h : m = m') (he : e = e') :
    UnpackedFloat.finite s m e hm = .finite s' m' e' hm' := by
  subst hs h he
  rfl

/-- The leading bit in front of a fraction. -/
theorem toNat_one_append (f : BitVec 52) : (1#1 ++ f).toNat = 2 ^ 52 + f.toNat := by
  rw [BitVec.toNat_append, ← Nat.shiftLeft_add_eq_or_of_lt f.isLt]
  rfl

/-- With the bit that is not stored, a significand is positive. -/
theorem toNat_one_append_pos (f : BitVec 52) : 0 < (1#1 ++ f).toNat := by
  rw [toNat_one_append]
  exact Nat.add_pos_left (by decide) _

theorem toNat_pos_of_ne {f : BitVec 52} (h : f ≠ 0#52) : 0 < f.toNat :=
  Nat.pos_of_ne_zero fun hzero => h (BitVec.eq_of_toNat_eq hzero)

/-- What a double stands for, by its stored exponent. -/
theorem unpack_eq (b : BitVec 64) :
    UnpackedFloat.unpack Format.binary64 b
      = if @unpackExponent Format.binary64 b = -1#11 then
          if @unpackMantissa Format.binary64 b = 0#52 then
            .infinity (Sign.ofBitVec (@unpackSign Format.binary64 b))
          else .notANumber
        else if @unpackExponent Format.binary64 b = 0#11 then
          if h : @unpackMantissa Format.binary64 b = 0#52 then
            .zero (Sign.ofBitVec (@unpackSign Format.binary64 b))
          else .finite (Sign.ofBitVec (@unpackSign Format.binary64 b))
            (@unpackMantissa Format.binary64 b).toNat
            ((@unpackExponent Format.binary64 b).toNat - 1075 + 1) (toNat_pos_of_ne h)
        else .finite (Sign.ofBitVec (@unpackSign Format.binary64 b))
          (1#1 ++ @unpackMantissa Format.binary64 b).toNat
          ((@unpackExponent Format.binary64 b).toNat - 1075) (toNat_one_append_pos _) :=
  rfl

/-- The sign that was packed is unpacked. -/
theorem unpackSign_packComponents (s : Sign) (k : BitVec 11) (f : BitVec 52) :
    Sign.ofBitVec (@unpackSign Format.binary64 (packComponents Format.binary64 s k f))
      = s := by
  have hbit : @unpackSign Format.binary64 (packComponents Format.binary64 s k f)
      = s.toBitVec := by
    refine BitVec.eq_of_toNat_eq ?_
    have hk := k.isLt
    have hf := f.isLt
    rw [toNat_unpackSign, toNat_packComponents]
    omega
  rw [hbit, ofBitVec_toBitVec]

/-- A stored exponent that is neither the least nor the greatest goes with a leading bit. -/
theorem unpack_normal (s : Sign) {k : BitVec 11} (f : BitVec 52) (hleast : k ≠ 0#11)
    (hgreatest : k ≠ -1#11) :
    UnpackedFloat.unpack Format.binary64 (packComponents Format.binary64 s k f)
      = .finite s (2 ^ 52 + f.toNat) (k.toNat - 1075) (Nat.add_pos_left (by decide) _) := by
  have hexponent : @unpackExponent Format.binary64 (packComponents Format.binary64 s k f) = k :=
    unpackExponent_packComponents
  have hmantissa : @unpackMantissa Format.binary64 (packComponents Format.binary64 s k f) = f :=
    unpackMantissa_packComponents
  have hfinite : @unpackExponent Format.binary64 (packComponents Format.binary64 s k f) ≠ -1#11 :=
    fun h => hgreatest (hexponent.symm.trans h)
  have hleading : @unpackExponent Format.binary64 (packComponents Format.binary64 s k f) ≠ 0#11 :=
    fun h => hleast (hexponent.symm.trans h)
  rw [unpack_eq, if_neg hfinite, if_neg hleading]
  refine finite_congr (unpackSign_packComponents s k f) ?_ ?_
  · rw [hmantissa, toNat_one_append]
  · rw [hexponent]

/-- Without a stored exponent, the stored significand is all there is. -/
theorem unpack_subnormal (s : Sign) {f : BitVec 52} (hf : 0 < f.toNat) :
    UnpackedFloat.unpack Format.binary64 (packComponents Format.binary64 s 0#11 f)
      = .finite s f.toNat leastExponent hf := by
  have hexponent : @unpackExponent Format.binary64 (packComponents Format.binary64 s 0#11 f)
      = 0#11 := unpackExponent_packComponents
  have hmantissa : @unpackMantissa Format.binary64 (packComponents Format.binary64 s 0#11 f) = f :=
    unpackMantissa_packComponents
  have hfinite : @unpackExponent Format.binary64 (packComponents Format.binary64 s 0#11 f)
      ≠ -1#11 := by
    rw [hexponent]
    decide
  have hne : @unpackMantissa Format.binary64 (packComponents Format.binary64 s 0#11 f) ≠ 0#52 := by
    intro hzero
    rw [hmantissa.symm.trans hzero] at hf
    exact absurd hf (by decide)
  rw [unpack_eq, if_neg hfinite, if_pos hexponent, dif_neg hne]
  refine finite_congr (unpackSign_packComponents s 0#11 f) ?_ ?_
  · rw [hmantissa]
  · rw [hexponent]
    rfl

/-- Unpacking gives back what was packed. -/
theorem Canonical.unpack_double {m : Nat} {e : Int} (h : Canonical m e) (negative : Bool) :
    (double negative m e).toModel.unpack = .finite (signOf negative) m e h.pos := by
  have hgreatest := h.greatest
  have hlt := h.lt
  have hleast : -1074 ≤ e := h.least
  rw [double, dif_neg (Nat.pos_iff_ne_zero.mp h.pos)]
  show UnpackedFloat.unpack Format.binary64 (UnpackedFloat.pack Format.binary64 _) = _
  rw [h.pack_eq]
  by_cases hm : 2 ^ 52 ≤ m
  · have hk : (BitVec.ofNat 11 ((e - leastExponent).toNat + 1)).toNat
        = (e - leastExponent).toNat + 1 := by
      rw [BitVec.toNat_ofNat, Nat.mod_eq_of_lt]
      show (e - -1074).toNat + 1 < 2 ^ 11
      omega
    rw [if_pos hm, unpack_normal]
    · refine finite_congr rfl ?_ ?_
      · rw [BitVec.toNat_ofNat]
        omega
      · rw [hk]
        show (((e - -1074).toNat + 1 : Nat) : Int) - 1075 = e
        omega
    · intro hzero
      rw [hzero] at hk
      cases hk
    · intro hones
      rw [hones] at hk
      have : 2047 = (e - -1074).toNat + 1 := hk
      omega
  · have hf : (BitVec.ofNat 52 m).toNat = m := by
      rw [BitVec.toNat_ofNat]
      omega
    have hpos : 0 < (BitVec.ofNat 52 m).toNat := by
      rw [hf]
      exact h.pos
    rw [if_neg hm]
    exact (unpack_subnormal _ hpos).trans
      (finite_congr rfl hf (h.normal.resolve_left hm).symm)

/-- The other sign. -/
theorem neg_double {m : Nat} {e : Int} (h : Canonical m e ∨ m = 0) :
    -double false m e = double true m e := by
  show Float.ofModel (.pack (double false m e).toModel.unpack.neg) = _
  rcases h with h | rfl
  · rw [h.unpack_double, double, dif_neg (Nat.pos_iff_ne_zero.mp h.pos)]
    rfl
  · rw [double, dif_pos rfl, double, dif_pos rfl]
    rfl

/-! ## Taking apart -/

/-- The stored exponent of a double. -/
def storedExponent (x : Float) : Nat :=
  x.toBits.toNat / 2 ^ 52 % 2 ^ 11

/-- The exponent has all bits set if it is the greatest. -/
theorem unpackExponent_eq_iff (x : Float) :
    @unpackExponent Format.binary64 x.toModel.toBits.toBitVec = -1#11
      ↔ storedExponent x = 2047 := by
  rw [← BitVec.toNat_inj, toNat_unpackExponent]
  exact Iff.rfl

/-- The significand has no bit set if it is zero. -/
theorem unpackMantissa_eq_iff (x : Float) :
    @unpackMantissa Format.binary64 x.toModel.toBits.toBitVec = 0#52
      ↔ x.toBits.toNat % 2 ^ 52 = 0 := by
  rw [← BitVec.toNat_inj, toNat_unpackMantissa]
  exact Iff.rfl

/-- The greatest stored exponent is that of infinities and NaNs, which the fraction tells apart. -/
theorem isNaN_and_isInf (x : Float) :
    x.isNaN = (decide (storedExponent x = 2047) && decide (x.toBits.toNat % 2 ^ 52 ≠ 0))
      ∧ x.isInf = (decide (storedExponent x = 2047) && decide (x.toBits.toNat % 2 ^ 52 = 0)) := by
  show (UnpackedFloat.unpack Format.binary64 x.toModel.toBits.toBitVec).isNaN = _
    ∧ (UnpackedFloat.unpack Format.binary64 x.toModel.toBits.toBitVec).isInf = _
  rw [unpack_eq]
  by_cases hexponent : storedExponent x = 2047
  · rw [if_pos ((unpackExponent_eq_iff x).mpr hexponent), decide_eq_true hexponent]
    by_cases hfraction : x.toBits.toNat % 2 ^ 52 = 0
    · rw [if_pos ((unpackMantissa_eq_iff x).mpr hfraction), decide_eq_true hfraction,
        decide_eq_false (not_not.mpr hfraction)]
      exact ⟨rfl, rfl⟩
    · rw [if_neg (fun h => hfraction ((unpackMantissa_eq_iff x).mp h)),
        decide_eq_false hfraction, decide_eq_true hfraction]
      exact ⟨rfl, rfl⟩
  · rw [if_neg (fun h => hexponent ((unpackExponent_eq_iff x).mp h)), decide_eq_false hexponent]
    by_cases hleast : @unpackExponent Format.binary64 x.toModel.toBits.toBitVec = 0#11
    · rw [if_pos hleast]
      by_cases hzero : @unpackMantissa Format.binary64 x.toModel.toBits.toBitVec = 0#52
      · rw [dif_pos hzero]
        exact ⟨rfl, rfl⟩
      · rw [dif_neg hzero]
        exact ⟨rfl, rfl⟩
    · rw [if_neg hleast]
      exact ⟨rfl, rfl⟩

/-- There is one NaN. -/
theorem eq_nan {x : Float} (h : x.isNaN = true) : x = nan := by
  rw [(isNaN_and_isInf x).1, Bool.and_eq_true, decide_eq_true_iff, decide_eq_true_iff] at h
  have hbits := x.toModel.valid.eq_packedNaN ((unpackExponent_eq_iff x).mpr h.1)
    (fun hzero => h.2 ((unpackMantissa_eq_iff x).mp hzero))
  exact eq_of_toBits (congrArg BitVec.toNat hbits)

/-- There are two infinities. -/
theorem eq_infinity {x : Float} (h : x.isInf = true) :
    x = if 0.0 < x then infinity else -infinity := by
  rw [(isNaN_and_isInf x).2, Bool.and_eq_true, decide_eq_true_iff, decide_eq_true_iff,
    storedExponent] at h
  have hlt := x.toBits.toNat_lt
  by_cases hsign : x.toBits.toNat < 2 ^ 63
  · have hx : x = infinity := by
      refine eq_of_toBits ?_
      show _ = 2047 * 2 ^ 52
      omega
    rw [hx, if_pos (by decide)]
  · have hx : x = -infinity := by
      refine eq_of_toBits ?_
      show _ = 2 ^ 63 + 2047 * 2 ^ 52
      omega
    rw [hx, if_neg (by decide)]

/-- The parts of a double in arithmetic on the number that its bits are. -/
theorem parts_eq (x : Float) :
    parts x = if storedExponent x = 0 then
        ⟨decide (2 ^ 63 ≤ x.toBits.toNat), x.toBits.toNat % 2 ^ 52, leastExponent⟩
      else ⟨decide (2 ^ 63 ≤ x.toBits.toNat), x.toBits.toNat % 2 ^ 52 + 2 ^ 52,
        leastExponent + (storedExponent x - 1 : Nat)⟩ :=
  rfl

/-- Only the greatest stored exponent is not that of a finite double. -/
theorem storedExponent_ne {x : Float} (hnan : x.isNaN = false) (hinf : x.isInf = false) :
    storedExponent x ≠ 2047 := by
  intro h
  rw [(isNaN_and_isInf x).1, decide_eq_true h, Bool.true_and, decide_eq_false_iff_not] at hnan
  rw [(isNaN_and_isInf x).2, decide_eq_true h, Bool.true_and, decide_eq_false_iff_not] at hinf
  exact hnan hinf

/-- The parts of a finite double are canonical or zero. -/
theorem canonical_parts {x : Float} (hstored : storedExponent x ≠ 2047) :
    Canonical (parts x).significand (parts x).exponent
      ∨ ((parts x).significand = 0 ∧ (parts x).exponent = leastExponent) := by
  have hfraction : x.toBits.toNat % 2 ^ 52 < 2 ^ 52 := Nat.mod_lt _ (by decide)
  rw [parts_eq]
  by_cases hleast : storedExponent x = 0
  · rw [if_pos hleast]
    rcases Nat.eq_zero_or_pos (x.toBits.toNat % 2 ^ 52) with hzero | hpos
    · exact Or.inr ⟨hzero, rfl⟩
    · have hgreatest : leastExponent ≤ 971 := by decide
      exact Or.inl ⟨hpos, Nat.lt_trans hfraction (by decide), Int.le_refl _, hgreatest,
        Or.inr rfl⟩
  · rw [if_neg hleast]
    have hgreatest : storedExponent x < 2 ^ 11 := Nat.mod_lt _ (by decide)
    refine Or.inl ⟨?_, ?_, ?_, ?_, Or.inl (Nat.le_add_left _ _)⟩
    · exact Nat.add_pos_right _ (by decide)
    · show x.toBits.toNat % 2 ^ 52 + 2 ^ 52 < 2 ^ 53
      omega
    · exact Int.le_add_of_nonneg_right (Int.natCast_nonneg _)
    · show (-1074 : Int) + (storedExponent x - 1 : Nat) ≤ 971
      omega

theorem toNat_decide_sign (x : Float) :
    (decide (2 ^ 63 ≤ x.toBits.toNat)).toNat = x.toBits.toNat / 2 ^ 63 := by
  have hlt := x.toBits.toNat_lt
  by_cases h : 2 ^ 63 ≤ x.toBits.toNat
  · rw [decide_eq_true h, Bool.toNat_true]
    omega
  · rw [decide_eq_false h, Bool.toNat_false]
    omega

/-- The parts of a finite double are those it is made of. -/
theorem parts_spec {x : Float} (hnan : x.isNaN = false) (hinf : x.isInf = false) :
    x = double (parts x).negative (parts x).significand (parts x).exponent
      ∧ (Canonical (parts x).significand (parts x).exponent
        ∨ ((parts x).significand = 0 ∧ (parts x).exponent = leastExponent)) := by
  have hcanonical := canonical_parts (storedExponent_ne hnan hinf)
  refine ⟨eq_of_toBits ?_, hcanonical⟩
  have hlt := x.toBits.toNat_lt
  rw [toNat_double hcanonical, parts_eq]
  -- the sign, the stored exponent and the fraction are the digits of the bits in these bases
  by_cases hleast : storedExponent x = 0
  · rw [if_pos hleast, toNat_decide_sign]
    rw [storedExponent] at hleast
    show _ = _ + 0 * 2 ^ 52 + x.toBits.toNat % 2 ^ 52
    omega
  · rw [if_neg hleast, toNat_decide_sign]
    have hsteps : (leastExponent + (storedExponent x - 1 : Nat) - leastExponent).toNat
        = storedExponent x - 1 := by omega
    show _ = _ + (leastExponent + (storedExponent x - 1 : Nat) - leastExponent).toNat * 2 ^ 52
      + (x.toBits.toNat % 2 ^ 52 + 2 ^ 52)
    rw [hsteps]
    rw [storedExponent] at hleast ⊢
    omega

end TreeGrammar.Number
