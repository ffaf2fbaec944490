import Mathlib.Data.List.TakeWhile
import TreeGrammar.Proofs.Number.Shortest
import TreeGrammar.Proofs.Read.Literal

/-! # The text of a double — it is a numeral of a number that rounds to the double

    Wherever the point is put, the digits and the power of ten of the first make up the
    same number: with zeros in front of the digits, with zeros behind them, with the
    point between them, or with an exponent.  The reader puts whole part and fraction
    together again and subtracts the digits of the fraction from the exponent. -/

namespace TreeGrammar.Number

open Read (numeral fractionText exponentText floatOf)

/-! ## Digits -/

/-- Digits in front count by the places behind them. -/
theorem ofDigits_append (a b : List Char) :
    ofDigits (a ++ b) = 10 ^ b.length * ofDigits a + ofDigits b := by
  show Nat.ofDigitChars 10 (a ++ b) 0 = _
  rw [Nat.ofDigitChars_append, Nat.ofDigitChars_eq_ofDigitChars_zero]
  rfl

/-- Zeros in front change nothing. -/
theorem ofDigits_zeros_append (n : Nat) (ds : List Char) :
    ofDigits (List.replicate n '0' ++ ds) = ofDigits ds := by
  have hzeros : ofDigits (List.replicate n '0') = 0 := Nat.ofDigitChars_replicate_zero
  rw [ofDigits_append, hzeros, Nat.mul_zero, Nat.zero_add]

/-- Zeros behind are powers of ten. -/
theorem ofDigits_append_zeros (ds : List Char) (n : Nat) :
    ofDigits (ds ++ List.replicate n '0') = 10 ^ n * ofDigits ds := by
  have hzeros : ofDigits (List.replicate n '0') = 0 := Nat.ofDigitChars_replicate_zero
  rw [ofDigits_append, hzeros, List.length_replicate, Nat.add_zero]

theorem isDigit_of_mem_zero {c : Char} (h : c ∈ ['0']) : c.isDigit = true := by
  rw [List.mem_singleton.mp h]
  rfl

theorem isDigit_of_mem_zeros {n : Nat} {c : Char} (h : c ∈ List.replicate n '0') :
    c.isDigit = true := by
  rw [List.eq_of_mem_replicate h]
  rfl

/-- Digits without the zeros at their end are what these are put behind. -/
theorem dropZeros_append (ds : List Char) :
    ∃ n, ds = (dropZeros ds).1 ++ List.replicate n '0' := by
  refine ⟨(ds.reverse.takeWhile (· == '0')).length, ?_⟩
  have hzeros : ds.reverse.takeWhile (· == '0')
      = List.replicate (ds.reverse.takeWhile (· == '0')).length '0' := by
    refine List.eq_replicate_of_mem fun c hc => ?_
    have hzero : (c == '0') = true := @List.mem_takeWhile_imp _ (· == '0') _ c hc
    exact beq_iff_eq.mp hzero
  have happend := congrArg List.reverse
    (ds.reverse.takeWhile_append_dropWhile (p := (· == '0')))
  rw [List.reverse_append, List.reverse_reverse, hzeros, List.reverse_replicate] at happend
  exact happend.symm

/-! ## Layout -/

/-- The text is a numeral with a fraction or an exponent, and this is the number it means. -/
def Means (text : List Char) (r : ℚ) : Prop :=
  ∃ whole fraction e?, whole ≠ [] ∧ (∀ c ∈ whole, c.isDigit = true)
    ∧ (∀ c ∈ fraction, c.isDigit = true) ∧ (fraction ≠ [] ∨ e?.isSome)
    ∧ text = whole ++ (fractionText fraction ++ exponentText e?)
    ∧ (ofDigits (whole ++ fraction) : ℚ) * 10 ^ (e?.getD 0 - fraction.length) = r

/-- A fraction with digits is written as a point and these. -/
theorem fractionText_of_ne_nil {ds : List Char} (h : ds ≠ []) : fractionText ds = '.' :: ds := by
  cases ds with
  | nil => exact absurd rfl h
  | cons d ds => rfl

section Layout

variable {ds : List Char} (hne : ds ≠ []) (hds : ∀ c ∈ ds, c.isDigit = true)

include hne hds

/-- The point stands in front of the digits, and zeros between. -/
theorem means_small (n : Nat) :
    Means ('0' :: '.' :: (List.replicate n '0' ++ ds))
      (ofDigits ds * 10 ^ (-(n : Int) - ds.length)) := by
  have hfraction : List.replicate n '0' ++ ds ≠ [] := List.append_ne_nil_of_right_ne_nil _ hne
  refine ⟨['0'], List.replicate n '0' ++ ds, none, List.cons_ne_nil _ _,
    fun c => isDigit_of_mem_zero, ?_, Or.inl hfraction, ?_, ?_⟩
  · intro c hc
    rcases List.mem_append.mp hc with hzero | hdigit
    · exact isDigit_of_mem_zeros hzero
    · exact hds c hdigit
  · rw [fractionText_of_ne_nil hfraction, exponentText, List.append_nil]
    rfl
  · have hexponent : (0 : Int) - (List.replicate n '0' ++ ds).length = -(n : Int) - ds.length := by
      rw [List.length_append, List.length_replicate]
      omega
    have hdigits : ofDigits (['0'] ++ (List.replicate n '0' ++ ds)) = ofDigits ds :=
      (ofDigits_zeros_append 1 _).trans (ofDigits_zeros_append n ds)
    rw [Option.getD_none, hexponent, hdigits]

/-- The point stands behind so many of the digits, and zeros in between if there are fewer. -/
theorem means_positional {whole : Nat} (hwhole : 0 < whole) :
    Means ((ds.take whole ++ List.replicate (whole - ds.length) '0')
        ++ '.' :: (if (ds.drop whole).isEmpty then ['0'] else ds.drop whole))
      (ofDigits ds * 10 ^ ((whole : Int) - ds.length)) := by
  have hlength : 0 < ds.length := List.length_pos_of_ne_nil hne
  -- either all digits stand in front of the point, or some are left to stand behind it
  by_cases hle : ds.length ≤ whole
  · rw [List.take_of_length_le hle, List.drop_of_length_le hle]
    refine ⟨ds ++ List.replicate (whole - ds.length) '0', ['0'], none,
      List.append_ne_nil_of_left_ne_nil hne _, ?_, fun c => isDigit_of_mem_zero,
      Or.inl (List.cons_ne_nil _ _), rfl, ?_⟩
    · intro c hc
      rcases List.mem_append.mp hc with hdigit | hzero
      · exact hds c hdigit
      · exact isDigit_of_mem_zeros hzero
    · obtain ⟨k, hk⟩ := Nat.le.dest hle
      have hdigits : ofDigits ((ds ++ List.replicate (whole - ds.length) '0') ++ ['0'])
          = 10 * (10 ^ k * ofDigits ds) := by
        rw [show whole - ds.length = k by omega, ← ofDigits_append_zeros]
        exact ofDigits_append_zeros _ 1
      have hexponent : (whole : Int) - ds.length = k := by omega
      rw [hdigits, hexponent, zpow_natCast]
      show _ * (10 : ℚ) ^ (0 - 1 : Int) = _
      push_cast
      norm_num
      ring
  · have hfew : whole - ds.length = 0 := by omega
    have hbehind : ds.drop whole ≠ [] := by
      rw [ne_eq, List.drop_eq_nil_iff]
      exact hle
    rw [hfew, if_neg (by rwa [List.isEmpty_iff])]
    refine ⟨ds.take whole, ds.drop whole, none, ?_, ?_, ?_, Or.inl hbehind, ?_, ?_⟩
    · rw [ne_eq, List.take_eq_nil_iff, not_or]
      exact ⟨hwhole.ne', hne⟩
    · exact fun c hc => hds c (List.mem_of_mem_take hc)
    · exact fun c hc => hds c (List.mem_of_mem_drop hc)
    · rw [fractionText_of_ne_nil hbehind, exponentText, List.append_nil]
      exact congrArg (· ++ _) (List.append_nil _)
    · have hexponent : (0 : Int) - (ds.drop whole).length = whole - ds.length := by
        rw [List.length_drop]
        omega
      rw [Option.getD_none, hexponent, List.take_append_drop]

omit hne in
/-- The point stands behind the first digit, and an exponent behind them all. -/
theorem means_scientific {d : Char} {more : List Char} (h : ds = d :: more) (top : Int) :
    Means (d :: ((if more.isEmpty then [] else '.' :: more) ++ exponentText (some top)))
      (ofDigits ds * 10 ^ (top + 1 - ds.length)) := by
  subst h
  refine ⟨[d], more, some top, List.cons_ne_nil _ _, ?_, ?_, Or.inr rfl, ?_, ?_⟩
  · intro c hc
    rw [List.mem_singleton.mp hc]
    exact hds d (List.mem_cons_self ..)
  · exact fun c hc => hds c (List.mem_cons_of_mem _ hc)
  · cases more with
    | nil => rfl
    | cons c more => rfl
  · have hexponent : top - more.length = top + 1 - (d :: more).length := by
      rw [List.length_cons]
      omega
    rw [Option.getD_some, hexponent]
    rfl

/-- However the digits are laid out, the text means the same number. -/
theorem means_layout (top : Int) :
    Means (Format.standard.layout ds top) (ofDigits ds * 10 ^ (top + 1 - ds.length)) := by
  rw [Format.layout]
  by_cases hrange : Format.standard.lowest ≤ top ∧ top ≤ Format.standard.highest
  · rw [if_pos hrange]
    by_cases hsign : top < 0
    · rw [if_pos hsign]
      have hexponent : top + 1 - ds.length = -((-top - 1).toNat : Int) - ds.length := by omega
      rw [hexponent]
      exact means_small hne hds _
    · rw [if_neg hsign]
      have hexponent : top + 1 - ds.length = ((top.toNat + 1 : Nat) : Int) - ds.length := by omega
      rw [hexponent]
      exact means_positional hne hds (Nat.succ_pos _)
  · rw [if_neg hrange]
    have hexponent : 'e' :: ((if top < 0 then ['-'] else []) ++ digitsOf top.natAbs)
        = exponentText (some top) := by
      cases top with
      | ofNat n => rfl
      | negSucc n =>
          rw [if_pos (Int.negSucc_lt_zero n)]
          rfl
    cases hd : ds with
    | nil => exact absurd hd hne
    | cons d more =>
        have hmeans := means_scientific hds hd top
        rw [hd, ← hexponent] at hmeans
        exact hmeans

end Layout

/-- The text of a magnitude means a number that rounds to it. -/
theorem means_magnitudeText (negative : Bool) {m : Nat} {e : Int} (hc : Canonical m e) :
    ∃ r, RoundsTo m e r ∧ Means (magnitudeText ⟨negative, m, e⟩) r := by
  have hrounds := roundsTo_shortest negative hc
  refine ⟨_, hrounds, ?_⟩
  rw [magnitudeText, if_neg hc.pos.ne']
  dsimp only
  generalize shortest ⟨negative, m, e⟩ = d at hrounds ⊢
  obtain ⟨z, hz⟩ := dropZeros_append (digitsOf d.digits)
  have hvalue : d.digits = 10 ^ z * ofDigits (dropZeros (digitsOf d.digits)).1 := by
    rw [← ofDigits_append_zeros, ← hz, Read.ofDigits_digitsOf]
  have hdigits : ∀ c ∈ (dropZeros (digitsOf d.digits)).1, c.isDigit = true := by
    intro c hc
    refine @Read.isDigit_of_mem_digitsOf d.digits c ?_
    rw [hz]
    exact List.mem_append_left _ hc
  -- a number that rounds to a double is above zero, so a digit is left
  have hne : (dropZeros (digitsOf d.digits)).1 ≠ [] := by
    intro hnil
    rw [hnil] at hvalue
    have hzero : d.digits = 0 := hvalue
    have hpos := hc.gt_of_roundsTo hrounds
    rw [hzero, Nat.cast_zero, zero_mul] at hpos
    exact absurd hpos (not_lt.mpr (le_of_lt (zpow_pos (by norm_num) _)))
  have hlength : (digitsOf d.digits).length = (dropZeros (digitsOf d.digits)).1.length + z := by
    have := congrArg List.length hz
    rwa [List.length_append, List.length_replicate] at this
  have hmeans := means_layout hne hdigits (d.exponent + ((digitsOf d.digits).length - 1))
  have hexponent : d.exponent + (((digitsOf d.digits).length : Int) - 1) + 1
      - (dropZeros (digitsOf d.digits)).1.length = z + d.exponent := by
    omega
  have hsame : (ofDigits (dropZeros (digitsOf d.digits)).1 : ℚ) * 10 ^ ((z : Int) + d.exponent)
      = d.digits * 10 ^ d.exponent := by
    have hcast : (d.digits : ℚ) = 10 ^ z * ofDigits (dropZeros (digitsOf d.digits)).1 := by
      exact_mod_cast hvalue
    rw [zpow_add₀ (by norm_num), zpow_natCast, hcast]
    ring
  rw [hexponent, hsame] at hmeans
  exact hmeans

/-! ## Reading the text -/

/-- Without a significand, the double is a zero of the sign. -/
theorem double_zero (negative : Bool) (e : Int) :
    double negative 0 e = if negative then -0.0 else 0.0 := by
  rw [double, dif_pos rfl]
  cases negative <;> rfl

/-- The text of a finite double is a numeral that is read as this double. -/
theorem floatText_numeral {x : Float} (hnan : x.isNaN = false) (hinf : x.isInf = false) :
    ∃ negative whole fraction e?, whole ≠ [] ∧ (∀ c ∈ whole, c.isDigit = true)
      ∧ (∀ c ∈ fraction, c.isDigit = true) ∧ (fraction ≠ [] ∨ e?.isSome)
      ∧ floatText x = numeral negative whole (fractionText fraction ++ exponentText e?)
      ∧ floatOf negative whole fraction (e?.getD 0) = x := by
  obtain ⟨hx, hcanonical⟩ := parts_spec hnan hinf
  have htext : floatText x
      = (if (parts x).negative then ['-'] else []) ++ magnitudeText (parts x) := by
    rw [floatText, hnan, hinf]
    rfl
  rw [htext]
  generalize parts x = p at hx hcanonical ⊢
  obtain ⟨negative, m, e⟩ := p
  subst hx
  rcases hcanonical with hc | ⟨hm, -⟩
  · obtain ⟨r, hrounds, whole, fraction, e?, hne, hwhole, hfraction, hfloat, htext, hvalue⟩ :=
      means_magnitudeText negative hc
    refine ⟨negative, whole, fraction, e?, hne, hwhole, hfraction, hfloat, ?_, ?_⟩
    · rw [htext]
      rfl
    · have hread : Decimal.toFloat ⟨ofDigits (whole ++ fraction), e?.getD 0 - fraction.length⟩
          = double false m e := by
        refine Decimal.toFloat_eq hc ?_
        show RoundsTo m e (ofDigits (whole ++ fraction) * 10 ^ (e?.getD 0 - fraction.length))
        rw [hvalue]
        exact hrounds
      rw [floatOf, hread]
      cases negative with
      | true => exact neg_double (Or.inl hc)
      | false => rfl
  · dsimp only at hm
    subst hm
    refine ⟨negative, ['0'], ['0'], none, List.cons_ne_nil _ _,
      fun c => isDigit_of_mem_zero, fun c => isDigit_of_mem_zero,
      Or.inl (List.cons_ne_nil _ _), rfl, ?_⟩
    rw [double_zero]
    cases negative <;> rfl

end TreeGrammar.Number
