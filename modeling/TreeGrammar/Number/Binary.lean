/-! # Binary floating-point numbers, taken apart

    A finite double is `± significand · 2 ^ exponent` with a significand below
    `2 ^ 53`.  Taking a double apart and putting it together again make the exact
    operations possible that need integer arithmetic: the remainder with the sign of
    the dividend, and the order in which a NaN compares with nothing. -/

namespace TreeGrammar.Number

/-- The magnitude and sign of a finite double. -/
structure Parts where
  negative : Bool
  significand : Nat
  exponent : Int
  deriving DecidableEq, Repr

/-- The least exponent, that of the subnormal numbers. -/
def leastExponent : Int := -1074

/-- The leading bit of a significand that is not subnormal: `2 ^ 52`. -/
def leadingBit : Nat := 0x10000000000000

/-- The bit of the sign: `2 ^ 63`. -/
def signBit : Nat := 0x8000000000000000

/-- Takes a finite double apart; the result means nothing for an infinity or a NaN. -/
def parts (x : Float) : Parts :=
  let bits := x.toBits.toNat
  let biased := bits / leadingBit % 0x800
  let fraction := bits % leadingBit
  let negative := decide (signBit ≤ bits)
  if biased = 0 then ⟨negative, fraction, leastExponent⟩
  else ⟨negative, fraction + leadingBit, leastExponent + (biased - 1 : Nat)⟩

/-- The number of binary digits. -/
def bitLength (n : Nat) : Nat :=
  if n = 0 then 0 else n.log2 + 1

/-- Puts a double together whose significand is below `2 ^ 53` and whose value a double can hold. -/
def ofParts (p : Parts) : Float :=
  let room := 53 - bitLength p.significand
  let shift := min room (p.exponent - leastExponent).toNat
  let m := p.significand * Nat.pow 2 shift
  let step := (p.exponent - leastExponent).toNat - shift
  let magnitude := if m < leadingBit then m else (step + 1) * leadingBit + (m - leadingBit)
  Float.ofBits (UInt64.ofNat (magnitude + if p.negative then signBit else 0))

/-- The number that is not one. -/
def nan : Float := 0.0 / 0.0

/-- Positive infinity. -/
def infinity : Float := 1.0 / 0.0

/-- The exact remainder of the quotient truncated toward zero; it bears the dividend's sign. -/
def remainder (x y : Float) : Float :=
  if x.isNaN || y.isNaN || x.isInf || y == 0.0 then nan
  else if y.isInf then x
  else
    let a := parts x
    let b := parts y
    let e := min a.exponent b.exponent
    let scale (p : Parts) := p.significand * Nat.pow 2 (p.exponent - e).toNat
    ofParts ⟨a.negative, scale a % scale b, e⟩

/-- The order of two doubles; with a NaN there is none. -/
def compare? (x y : Float) : Option Ordering :=
  if x < y then some .lt
  else if x == y then some .eq
  else if y < x then some .gt
  else none

end TreeGrammar.Number
