import TreeGrammar.Number.Binary

/-! # Decimal text of floating-point numbers

    Writing takes the fewest decimal digits that read back as the same double, and
    of those the nearest, an exact tie going away from zero.  Both candidates of
    every grid are tested in exact integer arithmetic against the interval of reals
    that round to the double.  Reading rounds a decimal to the nearest double. -/

namespace TreeGrammar.Number

/-- The magnitude `digits · 10 ^ exponent`. -/
structure Decimal where
  digits : Nat
  exponent : Int
  deriving DecidableEq, Repr

/-- The decimal digits of a number, the most significant first. -/
def digitsOf (n : Nat) : List Char :=
  Nat.toDigits 10 n

/-- The exponent of the power of ten at or below the positive ratio `num / den`. -/
def tenfold (num den : Nat) : Int :=
  if den ≤ num then (digitsOf (num / den)).length - 1
  else -((digitsOf ((den - 1) / num)).length)

/-- The reals that round to a double, in units of `1 / scale`. -/
structure Interval where
  low : Nat
  value : Nat
  high : Nat
  scale : Nat
  closed : Bool

/-- The interval of the positive double `significand · 2 ^ exponent`. -/
def Interval.of (p : Parts) : Interval :=
  let grow := Nat.pow 2 (p.exponent - 2).toNat
  let below := if p.significand = leadingBit ∧ leastExponent < p.exponent then 1 else 2
  { low := (4 * p.significand - below) * grow
    value := 4 * p.significand * grow
    high := (4 * p.significand + 2) * grow
    scale := Nat.pow 2 (2 - p.exponent).toNat
    closed := p.significand % 2 == 0 }

/-- Whether `c · 10 ^ k` lies in the interval. -/
def Interval.holds (i : Interval) (c : Nat) (k : Int) : Bool :=
  let x := c * Nat.pow 10 k.toNat * i.scale
  let ten := Nat.pow 10 (-k).toNat
  (i.low * ten < x && x < i.high * ten) || (i.closed && (x == i.low * ten || x == i.high * ten))

/-- The multiple of `10 ^ k` inside the interval that is nearest to the value, if there is one. -/
def Interval.nearest? (i : Interval) (k : Int) : Option Decimal :=
  let unit := Nat.pow 10 k.toNat * i.scale
  let value := i.value * Nat.pow 10 (-k).toNat
  let c := value / unit
  match i.holds c k, i.holds (c + 1) k with
  | true, true => some ⟨if 2 * value < (2 * c + 1) * unit then c else c + 1, k⟩
  | true, false => some ⟨c, k⟩
  | false, true => some ⟨c + 1, k⟩
  | false, false => none

/-- The fewest digits that read back as the positive double; seventeen always do. -/
def shortest (p : Parts) : Decimal :=
  let i := Interval.of p
  let top := tenfold i.value i.scale
  ((List.range 17).findSome? fun (n : Nat) => i.nearest? (top - n)).getD ⟨0, 0⟩

/-- The digits without the zeros at their end, and how many those were. -/
def dropZeros (ds : List Char) : List Char × Nat :=
  let kept := (ds.reverse.dropWhile (· == '0')).reverse
  (kept, ds.length - kept.length)

/-- How a magnitude is laid out in text. -/
structure Format where
  /-- Positional from this power of ten on, -/
  lowest : Int
  /-- and up to this one. -/
  highest : Int
  /-- Stands before the exponent. -/
  mark : Char

/-- Positional from `0.0001` to below `10 ^ 16`, always with a point; beyond that `2.5e-7`. -/
def Format.standard : Format := ⟨-4, 15, 'e'⟩

/-- The text of a magnitude given by its digits and the power of ten of the first. -/
def Format.layout (f : Format) (ds : List Char) (top : Int) : List Char :=
  if f.lowest ≤ top ∧ top ≤ f.highest then
    if top < 0 then
      '0' :: '.' :: (List.replicate (-top - 1).toNat '0' ++ ds)
    else
      let whole := top.toNat + 1
      let ahead := ds.take whole ++ List.replicate (whole - ds.length) '0'
      let behind := ds.drop whole
      ahead ++ '.' :: (if behind.isEmpty then ['0'] else behind)
  else
    let exponent := f.mark :: ((if top < 0 then ['-'] else []) ++ digitsOf top.natAbs)
    match ds with
    | d :: more => d :: ((if more.isEmpty then [] else '.' :: more) ++ exponent)
    | [] => exponent

/-- The text of a finite magnitude. -/
def magnitudeText (p : Parts) : List Char :=
  if p.significand = 0 then ['0', '.', '0']
  else
    let d := shortest p
    let written := digitsOf d.digits
    Format.standard.layout (dropZeros written).1 (d.exponent + (written.length - 1))

/-- The text of a double. -/
def floatText (x : Float) : List Char :=
  if x.isNaN then ['n', 'a', 'n']
  else if x.isInf then (if 0.0 < x then ['i', 'n', 'f'] else ['-', 'i', 'n', 'f'])
  else
    let p := parts x
    (if p.negative then ['-'] else []) ++ magnitudeText p

/-- The text of an integer. -/
def intText : Int → List Char
  | .ofNat n => digitsOf n
  | .negSucc n => '-' :: digitsOf (n + 1)

/-- The value of a list of decimal digits. -/
def ofDigits (ds : List Char) : Nat :=
  ds.foldl (fun n c => 10 * n + (c.toNat - '0'.toNat)) 0

/-- The double nearest to `digits · 10 ^ exponent`; past the ends of the range zero or infinity. -/
def Decimal.toFloat (d : Decimal) : Float :=
  let top := d.exponent + (digitsOf d.digits).length
  if d.digits = 0 ∨ top < -400 then 0.0
  else if 400 < top then infinity
  else Float.ofScientific d.digits (d.exponent < 0) d.exponent.natAbs

end TreeGrammar.Number
