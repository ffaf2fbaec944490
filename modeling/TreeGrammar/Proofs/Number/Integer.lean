import Mathlib.Data.Int.Bitwise
import TreeGrammar.Number.Integer

/-! # Integers of 64 bits — when results are exact

    A result is kept when 64 bits hold it, and then it is the result itself: `Fits` says
    when.  Of the quotients of 64-bit integers only one does not fit, and the remainder
    of the same two operands would, but it is computed with the quotient.  Bits are those
    of the two's complement, in which a negative number has infinitely many ones. -/

namespace TreeGrammar.Number

/-- 64 bits hold the integer. -/
def Fits (n : Int) : Prop :=
  -2 ^ 63 ≤ n ∧ n < 2 ^ 63

instance (n : Int) : Decidable (Fits n) :=
  inferInstanceAs (Decidable (_ ∧ _))

/-- The value of a word fits a word. -/
theorem fits_toInt (x : Int64) : Fits x.toInt :=
  ⟨x.le_toInt, x.toInt_lt⟩

/-- A value that fits is kept. -/
theorem int64?_eq_some {n : Int} (h : Fits n) : int64? n = some (Int64.ofInt n) :=
  if_pos h

/-- A value that does not fit is lost. -/
theorem int64?_eq_none {n : Int} (h : ¬ Fits n) : int64? n = none :=
  if_neg h

theorem toInt_ofInt {n : Int} (h : Fits n) : (Int64.ofInt n).toInt = n :=
  Int64.toInt_ofInt_of_le h.1 h.2

/-! ## Division -/

section Division

variable {x y : Int}

/-- A divisor other than one and minus one halves the dividend at least. -/
theorem two_mul_natAbs_tdiv_le (hy : 2 ≤ y.natAbs) : 2 * (x.tdiv y).natAbs ≤ x.natAbs := by
  have hquotient : (x.tdiv y).natAbs = x.natAbs / y.natAbs := Int.natAbs_tdiv x y
  have hhalf : x.natAbs / y.natAbs ≤ x.natAbs / 2 := Nat.div_le_div_left hy Nat.zero_lt_two
  omega

/-- The only quotient that does not fit is that of the least integer by minus one. -/
theorem fits_tdiv_iff (hx : Fits x) (hy : y ≠ 0) :
    Fits (x.tdiv y) ↔ ¬ (x = -2 ^ 63 ∧ y = -1) := by
  obtain ⟨hlow, hhigh⟩ := hx
  by_cases hone : y = 1
  · subst hone
    rw [Int.tdiv_one]
    exact ⟨fun _ h => absurd h.2 (by decide), fun _ => ⟨hlow, hhigh⟩⟩
  · by_cases hminus : y = -1
    · subst hminus
      rw [Int.tdiv_neg, Int.tdiv_one, Fits]
      omega
    · have hhalf := two_mul_natAbs_tdiv_le (x := x) (y := y) (by omega)
      rw [Fits]
      omega

/-- The remainder fits, even where the quotient does not. -/
theorem fits_tmod (hx : Fits x) : Fits (x.tmod y) := by
  obtain ⟨hlow, hhigh⟩ := hx
  have hremainder : (x.tmod y).natAbs = x.natAbs % y.natAbs := Int.natAbs_tmod x y
  have hle : x.natAbs % y.natAbs ≤ x.natAbs := Nat.mod_le _ _
  -- it has the sign of the dividend, which is at least the least integer
  have hnegative : x ≤ 0 → x.tmod y ≤ 0 := by
    intro hx
    have hopposite : 0 ≤ (-x).tmod y := Int.tmod_nonneg y (by omega)
    rw [Int.neg_tmod] at hopposite
    omega
  rw [Fits]
  omega

/-- A quotient that fits is kept. -/
theorem quotient?_eq_some (h : Fits (x.tdiv y)) : quotient? x y = some (Int64.ofInt (x.tdiv y)) :=
  int64?_eq_some h

/-- The remainder is kept if the quotient fits. -/
theorem remainder?_eq_some (hx : Fits x) (h : Fits (x.tdiv y)) :
    remainder? x y = some (Int64.ofInt (x.tmod y)) := by
  rw [remainder?, quotient?_eq_some h]
  exact int64?_eq_some (fits_tmod hx)

/-- Without a quotient there is no remainder. -/
theorem remainder?_eq_none (h : ¬ Fits (x.tdiv y)) : remainder? x y = none := by
  rw [remainder?, quotient?, int64?_eq_none h]
  rfl

/-- A remainder is less than the divisor. -/
theorem natAbs_tmod_lt (hy : y ≠ 0) : (x.tmod y).natAbs < y.natAbs := by
  rw [Int.natAbs_tmod]
  exact Nat.mod_lt _ (Int.natAbs_pos.mpr hy)

/-- A remainder that is not zero has the sign of the dividend. -/
theorem sign_tmod_of_ne_zero (h : x.tmod y ≠ 0) : (x.tmod y).sign = x.sign := by
  rw [Int.sign_tmod, if_neg]
  exact fun hdvd => h (Int.tmod_eq_zero_of_dvd hdvd)

end Division

/-! ## Bits and shifts -/

/-- The bits of the number that a word stands for, the sign repeated above the word. -/
theorem testBit_toInt {w : Nat} (b : BitVec w) (i : Nat) :
    b.toInt.testBit i = if i < w then b.getLsbD i else b.msb := by
  cases hmsb : b.msb with
  | false =>
      rw [BitVec.toInt_eq_toNat_of_msb hmsb]
      show b.toNat.testBit i = _
      rw [BitVec.testBit_toNat]
      split
      · rfl
      · exact BitVec.getLsbD_of_ge b i (by omega)
  | true =>
      -- a negative number is the complement of a natural one
      have hlt := b.isLt
      have hnegative : b.toInt = Int.negSucc (2 ^ w - (b.toNat + 1)) := by
        rw [BitVec.toInt_eq_msb_cond, hmsb, if_pos rfl, Int.negSucc_eq]
        omega
      rw [hnegative]
      show (!(2 ^ w - (b.toNat + 1)).testBit i) = _
      rw [Nat.testBit_two_pow_sub_succ hlt, BitVec.testBit_toNat]
      by_cases hi : i < w
      · simp [hi]
      · simp [hi]

section Bitwise

variable (x y : Int64) (i : Nat)

/-- The bits of a conjunction of words are those of the values. -/
theorem testBit_and :
    (x &&& y).toInt.testBit i = (x.toInt.testBit i && y.toInt.testBit i) := by
  rw [← Int64.toInt_toBitVec, ← Int64.toInt_toBitVec, ← Int64.toInt_toBitVec, testBit_toInt,
    testBit_toInt, testBit_toInt, Int64.toBitVec_and, BitVec.getLsbD_and, BitVec.msb_and]
  split <;> rfl

/-- The bits of a disjunction of words are those of the values. -/
theorem testBit_or :
    (x ||| y).toInt.testBit i = (x.toInt.testBit i || y.toInt.testBit i) := by
  rw [← Int64.toInt_toBitVec, ← Int64.toInt_toBitVec, ← Int64.toInt_toBitVec, testBit_toInt,
    testBit_toInt, testBit_toInt, Int64.toBitVec_or, BitVec.getLsbD_or, BitVec.msb_or]
  split <;> rfl

/-- The bits of an exclusive disjunction of words are those of the values. -/
theorem testBit_xor :
    (x ^^^ y).toInt.testBit i = (x.toInt.testBit i ^^ y.toInt.testBit i) := by
  rw [← Int64.toInt_toBitVec, ← Int64.toInt_toBitVec, ← Int64.toInt_toBitVec, testBit_toInt,
    testBit_toInt, testBit_toInt, Int64.toBitVec_xor, BitVec.getLsbD_xor, BitVec.msb_xor]
  split <;> rfl

end Bitwise

section Shifts

variable (x : Int64) {y : Int64} (hy : 0 ≤ y.toInt ∧ y.toInt < 64)

include hy

/-- The places to shift by, as the word counts them. -/
theorem toNat_places : (y.toBitVec.smod 64).toNat = y.toInt.toNat := by
  have hword : y.toBitVec.smod 64 = y.toBitVec := by
    apply BitVec.eq_of_toInt_eq
    rw [BitVec.toInt_smod, Int64.toInt_toBitVec]
    show y.toInt.fmod 64 = y.toInt
    rw [Int.fmod_eq_emod_of_nonneg _ (by decide), Int.emod_eq_of_lt hy.1 hy.2]
  have hpositive : y.toBitVec.msb = false := by
    rw [BitVec.msb_eq_toInt]
    exact decide_eq_false (Int.not_lt.mpr hy.1)
  rw [hword, ← BitVec.toNat_toInt_of_msb _ hpositive, Int64.toInt_toBitVec]

/-- Shifting left multiplies by a power of two, of which a word is kept. -/
theorem toInt_shiftLeft :
    (x <<< y).toInt = (x.toInt * 2 ^ y.toInt.toNat).bmod (2 ^ 64) := by
  have hword : x.toInt = (x.toBitVec.toNat : Int).bmod (2 ^ 64) := x.toBitVec.toInt_eq_toNat_bmod
  show (x.toBitVec <<< (y.toBitVec.smod 64).toNat).toInt = _
  rw [toNat_places hy, BitVec.toInt_shiftLeft, Nat.shiftLeft_eq, hword, Int.bmod_mul_bmod]
  push_cast
  rfl

/-- Shifting right divides by a power of two, rounded down. -/
theorem toInt_shiftRight : (x >>> y).toInt = x.toInt / 2 ^ y.toInt.toNat := by
  show (x.toBitVec.sshiftRight (y.toBitVec.smod 64).toNat).toInt = _
  rw [toNat_places hy, BitVec.toInt_sshiftRight, Int.shiftRight_eq_div_pow, Int64.toInt_toBitVec]
  push_cast
  rfl

end Shifts

/-- The complement never overflows. -/
theorem toInt_complement (x : Int64) : (~~~x).toInt = -x.toInt - 1 := by
  obtain ⟨hlow, hhigh⟩ := fits_toInt x
  rw [Int64.toInt_not]
  exact Int.bmod_eq_of_le (by omega) (by omega)

end TreeGrammar.Number
