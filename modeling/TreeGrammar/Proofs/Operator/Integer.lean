import TreeGrammar.Proofs.Number.Integer
import TreeGrammar.Proofs.Operator.Literals

/-! # Integer operators — exact, or an error

    An operator on integers gives the result of arithmetic without bounds if 64 bits
    hold it, and otherwise fails.  It does not matter whether an operand is a literal
    or a leaf that holds it.  Division fails by zero and in the one case where the
    quotient does not fit, and the remainder fails with it.  Only shifting to the left
    drops bits, and shifts by less than no place or by a word and more fail. -/

namespace TreeGrammar.Builtin

open Number (Fits fits_toInt int64?_eq_some int64?_eq_none toInt_ofInt)

/-- The outcome is an integer of which this holds. -/
def GivesInt (o : Outcome Value) (p : Int → Prop) : Prop :=
  ∃ r : Int64, o = .ok (.lit (.int r)) ∧ p r.toInt

/-- The outcome is this integer, or the error that 64 bits do not hold it. -/
def ExactOrOverflow (op : Op) (n : Int) (o : Outcome Value) : Prop :=
  if Fits n then GivesInt o (· = n) else o = .error (.overflow op.name)

/-- The outcomes are the quotient rounded toward zero and its remainder, or both fail alike. -/
def DividesOrFails (x y : Int) (quotient remainder : Outcome Value) : Prop :=
  if y = 0 then
    quotient = .error (.divisionByZero Op.divides.name)
      ∧ remainder = .error (.divisionByZero Op.modulus.name)
  else if x = -2 ^ 63 ∧ y = -1 then
    quotient = .error (.overflow Op.divides.name)
      ∧ remainder = .error (.overflow Op.modulus.name)
  else ∃ q r : Int64, quotient = .ok (.lit (.int q)) ∧ remainder = .ok (.lit (.int r))
    ∧ x = q.toInt * y + r.toInt ∧ r.toInt.natAbs < y.natAbs
    ∧ (r.toInt = 0 ∨ r.toInt.sign = x.sign)

/-- The outcomes are those of shifting to the left within a word and to the right without
bounds, or both fail because there are not so many places. -/
def ShiftsOrFails (x y : Int) (left right : Outcome Value) : Prop :=
  if 0 ≤ y ∧ y < 64 then
    GivesInt left (· = (x * 2 ^ y.toNat).bmod (2 ^ 64)) ∧ GivesInt right (· = x / 2 ^ y.toNat)
  else left = .error (.overflow Op.shiftLeft.name) ∧ right = .error (.overflow Op.shiftRight.name)

/-! ## Results -/

section Results

variable {op : Op} {x y : Int64} {n : Int}

theorem givesInt_ofInt (h : Fits n) {p : Int → Prop} (hp : p n) :
    GivesInt (.ok (.lit (.int (Int64.ofInt n)))) p :=
  ⟨Int64.ofInt n, rfl, (toInt_ofInt h).symm ▸ hp⟩

/-- The integer that 64 bits hold, or the error that they do not. -/
def orOverflow (op : Op) : Option Int64 → Outcome Literal
  | some k => .ok (.int k)
  | none => .error (.overflow op.name)

/-- What is kept if 64 bits hold it is exact. -/
theorem exactOrOverflow_of_int64? {o : Outcome Literal}
    (ho : o = orOverflow op (Number.int64? n)) : ExactOrOverflow op n (Value.lit <$> o) := by
  rw [ExactOrOverflow]
  split
  · next hfits =>
      rw [ho, int64?_eq_some hfits]
      exact givesInt_ofInt hfits rfl
  · next hfits =>
      rw [ho, int64?_eq_none hfits]
      rfl

/-- There is no quotient and no remainder by zero. -/
theorem arithmetic_zero (hop : op = .divides ∨ op = .modulus) (hy : y.toInt = 0) :
    arithmetic op (.int x) (.int y) = .error (.divisionByZero op.name) := by
  have hzero : y = 0 := Int64.toInt_inj.mp hy
  rw [arithmetic, if_pos ⟨hop, hzero⟩]

/-- An operator that does not divide by zero is computed without bounds. -/
theorem arithmetic_eq_onInts (hy : y.toInt ≠ 0) :
    arithmetic op (.int x) (.int y) = orOverflow op (onInts op x.toInt y.toInt) := by
  have hnonzero : y ≠ 0 := fun h => hy (h ▸ rfl)
  rw [arithmetic, if_neg fun h => hnonzero h.2]
  rfl

end Results

section Groups

variable {v w : Value} {x y : Int64} (hv : v.literal? = some (.int x))
  (hw : w.literal? = some (.int y))

include hv

/-- Negation fails at the least integer only. -/
theorem apply_negate : if x.toInt = -2 ^ 63 then
      apply .negate [v] = .error (.overflow Op.negate.name)
    else GivesInt (apply .negate [v]) (· = -x.toInt) := by
  obtain ⟨hlow, hhigh⟩ := fits_toInt x
  have hexact : ExactOrOverflow .negate (-x.toInt) (apply .negate [v]) := by
    rw [apply_one rfl hv]
    exact exactOrOverflow_of_int64? rfl
  rw [ExactOrOverflow] at hexact
  split
  · next hleast => rwa [if_neg (by rw [Fits]; omega)] at hexact
  · next hleast => rwa [if_pos (by rw [Fits]; omega)] at hexact

/-- The complement is one less than the negative. -/
theorem apply_complement : GivesInt (apply .complement [v]) (· = -x.toInt - 1) := by
  rw [apply_one rfl hv]
  exact ⟨~~~x, rfl, Number.toInt_complement x⟩

include hw

/-- Sums, differences and products are exact. -/
theorem apply_ring : ExactOrOverflow .plus (x.toInt + y.toInt) (apply .plus [v, w])
    ∧ ExactOrOverflow .minus (x.toInt - y.toInt) (apply .minus [v, w])
    ∧ ExactOrOverflow .multiplies (x.toInt * y.toInt) (apply .multiplies [v, w]) := by
  rw [apply_two rfl (by decide) hv hw, apply_two rfl (by decide) hv hw,
    apply_two rfl (by decide) hv hw]
  exact ⟨exactOrOverflow_of_int64? rfl, exactOrOverflow_of_int64? rfl,
    exactOrOverflow_of_int64? rfl⟩

/-- The quotient and the remainder exist at the same operands, and are those of division rounded
toward zero. -/
theorem apply_division :
    DividesOrFails x.toInt y.toInt (apply .divides [v, w]) (apply .modulus [v, w]) := by
  have hdivides : apply .divides [v, w] = Value.lit <$> arithmetic .divides (.int x) (.int y) :=
    apply_two rfl (by decide) hv hw
  have hmodulus : apply .modulus [v, w] = Value.lit <$> arithmetic .modulus (.int x) (.int y) :=
    apply_two rfl (by decide) hv hw
  rw [hdivides, hmodulus, DividesOrFails]
  split
  · next hzero =>
      rw [arithmetic_zero (.inl rfl) hzero, arithmetic_zero (.inr rfl) hzero]
      exact ⟨rfl, rfl⟩
  · next hzero =>
      rw [arithmetic_eq_onInts hzero, arithmetic_eq_onInts hzero]
      have hquotient := Number.fits_tdiv_iff (fits_toInt x) hzero
      simp only [onInts]
      split
      · next hleast =>
          have hno : ¬ Fits (x.toInt.tdiv y.toInt) := fun h => hquotient.mp h hleast
          rw [Number.quotient?, int64?_eq_none hno, Number.remainder?_eq_none hno]
          exact ⟨rfl, rfl⟩
      · next hleast =>
          have hfits : Fits (x.toInt.tdiv y.toInt) := hquotient.mpr hleast
          refine ⟨.ofInt (x.toInt.tdiv y.toInt), .ofInt (x.toInt.tmod y.toInt), ?_, ?_, ?_⟩
          · rw [Number.quotient?_eq_some hfits]
            rfl
          · rw [Number.remainder?_eq_some (fits_toInt x) hfits]
            rfl
          · rw [toInt_ofInt hfits, toInt_ofInt (Number.fits_tmod (fits_toInt x))]
            refine ⟨?_, Number.natAbs_tmod_lt hzero, ?_⟩
            · have hdivision := Int.tmod_add_tdiv_mul x.toInt y.toInt
              omega
            · by_cases hr : x.toInt.tmod y.toInt = 0
              · exact .inl hr
              · exact .inr (Number.sign_tmod_of_ne_zero hr)

/-- The bitwise operators act on each bit. -/
theorem apply_bitwise :
    GivesInt (apply .bitwiseAnd [v, w])
        (fun r => ∀ i, r.testBit i = (x.toInt.testBit i && y.toInt.testBit i))
      ∧ GivesInt (apply .bitwiseOr [v, w])
        (fun r => ∀ i, r.testBit i = (x.toInt.testBit i || y.toInt.testBit i))
      ∧ GivesInt (apply .bitwiseXor [v, w])
        (fun r => ∀ i, r.testBit i = (x.toInt.testBit i ^^ y.toInt.testBit i)) := by
  rw [apply_two rfl (by decide) hv hw, apply_two rfl (by decide) hv hw,
    apply_two rfl (by decide) hv hw]
  exact ⟨⟨x &&& y, rfl, Number.testBit_and x y⟩, ⟨x ||| y, rfl, Number.testBit_or x y⟩,
    ⟨x ^^^ y, rfl, Number.testBit_xor x y⟩⟩

/-- Shifts are by less than a word. -/
theorem apply_shift :
    ShiftsOrFails x.toInt y.toInt (apply .shiftLeft [v, w]) (apply .shiftRight [v, w]) := by
  have hleft : apply .shiftLeft [v, w] = Value.lit <$> shift .shiftLeft (.int x) (.int y) :=
    apply_two rfl (by decide) hv hw
  have hright : apply .shiftRight [v, w] = Value.lit <$> shift .shiftRight (.int x) (.int y) :=
    apply_two rfl (by decide) hv hw
  rw [hleft, hright, ShiftsOrFails]
  simp only [shift, Number.shiftLeft?, Number.shiftRight?, if_pos,
    if_neg (show Op.shiftRight ≠ Op.shiftLeft by decide)]
  split
  · next hy =>
      exact ⟨⟨x <<< y, rfl, Number.toInt_shiftLeft x hy⟩,
        ⟨x >>> y, rfl, Number.toInt_shiftRight x hy⟩⟩
  · exact ⟨rfl, rfl⟩

end Groups

/-- On integers every operator is exact or fails. -/
theorem integer_operators {v w : Value} {x y : Int64} (hv : v.literal? = some (.int x))
    (hw : w.literal? = some (.int y)) :
    (ExactOrOverflow .plus (x.toInt + y.toInt) (apply .plus [v, w])
        ∧ ExactOrOverflow .minus (x.toInt - y.toInt) (apply .minus [v, w])
        ∧ ExactOrOverflow .multiplies (x.toInt * y.toInt) (apply .multiplies [v, w]))
      ∧ DividesOrFails x.toInt y.toInt (apply .divides [v, w]) (apply .modulus [v, w])
      ∧ (if x.toInt = -2 ^ 63 then apply .negate [v] = .error (.overflow Op.negate.name)
        else GivesInt (apply .negate [v]) (· = -x.toInt))
      ∧ GivesInt (apply .complement [v]) (· = -x.toInt - 1)
      ∧ (GivesInt (apply .bitwiseAnd [v, w])
            (fun r => ∀ i, r.testBit i = (x.toInt.testBit i && y.toInt.testBit i))
        ∧ GivesInt (apply .bitwiseOr [v, w])
            (fun r => ∀ i, r.testBit i = (x.toInt.testBit i || y.toInt.testBit i))
        ∧ GivesInt (apply .bitwiseXor [v, w])
            (fun r => ∀ i, r.testBit i = (x.toInt.testBit i ^^ y.toInt.testBit i)))
      ∧ ShiftsOrFails x.toInt y.toInt (apply .shiftLeft [v, w]) (apply .shiftRight [v, w]) :=
  ⟨apply_ring hv hw, apply_division hv hw, apply_negate hv, apply_complement hv,
    apply_bitwise hv hw, apply_shift hv hw⟩

/-- At the least integer and minus one, the second in a leaf: division overflows. -/
theorem integer_operators_least :
    (Value.lit (.int Int64.minValue)).literal? = some (.int Int64.minValue)
      ∧ (Value.node (.leaf (.int (-1)))).literal? = some (.int (-1))
      ∧ apply .divides [.lit (.int Int64.minValue), .node (.leaf (.int (-1)))]
        = .error (.overflow Op.divides.name)
      ∧ apply .modulus [.lit (.int Int64.minValue), .node (.leaf (.int (-1)))]
        = .error (.overflow Op.modulus.name) := by
  have hdivision := (integer_operators (v := .lit (.int Int64.minValue))
    (w := .node (.leaf (.int (-1)))) rfl rfl).2.1
  rw [DividesOrFails, if_neg (by decide), if_pos (by decide)] at hdivision
  exact ⟨rfl, rfl, hdivision⟩

end TreeGrammar.Builtin
