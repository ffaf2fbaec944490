/-! # Integers of 64 bits

    Arithmetic on literals is exact or fails: a result is computed without bounds and
    kept only when 64 bits hold it. -/

namespace TreeGrammar.Number

/-- The 64-bit integer of a value, if the value is in range: from `-2 ^ 63` to below `2 ^ 63`. -/
def int64? (n : Int) : Option Int64 :=
  if -0x8000000000000000 ≤ n ∧ n < 0x8000000000000000 then some (Int64.ofInt n) else none

/-- The quotient truncated toward zero, if it is in range; the divisor is not zero. -/
def quotient? (x y : Int) : Option Int64 :=
  int64? (x.tdiv y)

/-- The remainder of `quotient?`, which exists only with the quotient. -/
def remainder? (x y : Int) : Option Int64 :=
  (quotient? x y).bind fun _ => int64? (x.tmod y)

/-- Shifts left, dropping the bits that leave the word; only by less than its width. -/
def shiftLeft? (x y : Int64) : Option Int64 :=
  if 0 ≤ y.toInt ∧ y.toInt < 64 then some (x <<< y) else none

/-- Shifts right, repeating the sign; only by less than the width of the word. -/
def shiftRight? (x y : Int64) : Option Int64 :=
  if 0 ≤ y.toInt ∧ y.toInt < 64 then some (x >>> y) else none

end TreeGrammar.Number
