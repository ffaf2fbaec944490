import TreeGrammar.Number.Decimal
import TreeGrammar.Toml.Text

/-! # Numbers and dates of TOML

    What is neither a string nor a bracket is a run of letters, digits and a few
    signs.  The run as a whole is a truth value, an integer in one of four bases, a
    floating-point number, or a date, a time or both; everything else is refused.
    Underscores may stand between digits.  Integers are kept when 128 bits hold them,
    with or without a sign. -/

namespace TreeGrammar.Toml

/-- The digits without their underscores, if every underscore stands between two digits. -/
def ungroup? (isDigit : Char → Bool) : List Char → Option (List Char)
  | [] => none
  | [c] => if isDigit c then some [c] else none
  | c :: '_' :: rest => if isDigit c then (ungroup? isDigit rest).map (c :: ·) else none
  | c :: rest => if isDigit c then (ungroup? isDigit rest).map (c :: ·) else none

/-- The value of digits of a base. -/
def valueOf (base : Nat) (ds : List Char) : Nat :=
  ds.foldl (fun n c => base * n + (hexDigit? c).getD 0) 0

/-- Whether a character is a digit of a base. -/
def isDigitOf (base : Nat) (c : Char) : Bool :=
  match hexDigit? c with
  | some d => d < base
  | none => false

/-- The value of a run of digits that may be grouped. -/
def grouped? (base : Nat) (s : List Char) : Option Nat :=
  (ungroup? (isDigitOf base) s).map (valueOf base)

/-- A number without sign, written with no zero at its front. -/
def decimal? (s : List Char) : Option Nat :=
  if s.head? = some '0' ∧ 1 < s.length then none else grouped? 10 s

/-- The sign at the front, whether it is a minus, and what follows. -/
def unsign (s : List Char) : Bool × List Char :=
  match s with
  | '-' :: rest => (true, rest)
  | '+' :: rest => (false, rest)
  | _ => (false, s)

/-- The integer of a run. -/
def integer? (s : List Char) : Option Int :=
  let n? : Option Int :=
    match s with
    | '0' :: 'x' :: rest => (grouped? 16 rest).map Int.ofNat
    | '0' :: 'o' :: rest => (grouped? 8 rest).map Int.ofNat
    | '0' :: 'b' :: rest => (grouped? 2 rest).map Int.ofNat
    | _ => (decimal? (unsign s).2).map fun n => if (unsign s).1 then -(n : Int) else n
  n?.filter fun n => -Int.ofNat (Nat.pow 2 127) ≤ n && n < Nat.pow 2 128

/-- Splits a list before the first character of a kind. -/
def splitBefore (p : Char → Bool) (s : List Char) : List Char × List Char :=
  (s.takeWhile (!p ·), s.dropWhile (!p ·))

/-- The magnitude of a run that is a floating-point number without sign. -/
def magnitude? (s : List Char) : Option Float := do
  let (mantissa, power) := splitBefore (fun c => c == 'e' || c == 'E') s
  let (whole, fraction) := splitBefore (· == '.') mantissa
  if fraction.isEmpty && power.isEmpty then none
  let _ ← decimal? whole
  let ds ← ungroup? Char.isDigit whole
  let fs ← if fraction.isEmpty then some [] else ungroup? Char.isDigit (fraction.drop 1)
  let e ← if power.isEmpty then some 0 else grouped? 10 (unsign (power.drop 1)).2
  let e : Int := if (unsign (power.drop 1)).1 then -e else e
  let x := Number.Decimal.toFloat ⟨Number.ofDigits (ds ++ fs), e - fs.length⟩
  if x.isInf then none else some x

/-- The floating-point number of a run; one too great for a double is refused. -/
def float? (s : List Char) : Option Float :=
  let (negative, rest) := unsign s
  let x? :=
    if rest = ['i', 'n', 'f'] then some Number.infinity
    else if rest = ['n', 'a', 'n'] then some Number.nan
    else magnitude? rest
  x?.map fun x => if negative then -x else x

/-- A number of exactly so many digits at the front, within bounds, and what follows. -/
def field? (count low high : Nat) (s : List Char) : Option (Nat × List Char) :=
  let ds := s.take count
  let n := Number.ofDigits ds
  if ds.length = count ∧ ds.all Char.isDigit ∧ low ≤ n ∧ n ≤ high then
    some (n, s.drop count)
  else none

/-- What follows a sign that must stand at the front. -/
def after? (p : Char → Bool) (s : List Char) : Option (List Char) :=
  match s with
  | c :: rest => if p c then some rest else none
  | [] => none

/-- The days of a month. -/
def daysOf (year month : Nat) : Nat :=
  if month = 2 then (if year % 4 = 0 ∧ (year % 100 ≠ 0 ∨ year % 400 = 0) then 29 else 28)
  else if month = 4 ∨ month = 6 ∨ month = 9 ∨ month = 11 then 30
  else 31

/-- What follows a date. -/
def date? (s : List Char) : Option (List Char) := do
  let (year, s) ← field? 4 0 9999 s
  let (month, s) ← field? 2 1 12 (← after? (· == '-') s)
  let (_, s) ← field? 2 1 (daysOf year month) (← after? (· == '-') s)
  return s

/-- What follows a time of day; seconds and their fraction may be missing. -/
def time? (s : List Char) : Option (List Char) := do
  let (_, s) ← field? 2 0 23 s
  let (_, s) ← field? 2 0 59 (← after? (· == ':') s)
  match after? (· == ':') s with
  | none => return s
  | some s =>
    let (_, s) ← field? 2 0 60 s
    match after? (· == '.') s with
    | none => return s
    | some s =>
      if (s.head?.map Char.isDigit).getD false then return s.dropWhile Char.isDigit else none

/-- What follows the difference from universal time. -/
def offset? (s : List Char) : Option (List Char) :=
  match s with
  | 'Z' :: rest | 'z' :: rest => some rest
  | _ => do
    let (_, s) ← field? 2 0 23 (← after? (fun c => c == '+' || c == '-') s)
    let (_, s) ← field? 2 0 59 (← after? (· == ':') s)
    return s

/-- Whether a run is a date, a time, or both with or without the difference from universal time. -/
def isDateTime (s : List Char) : Bool :=
  match date? s with
  | some [] => true
  | some rest =>
    match (after? (fun c => c == 'T' || c == 't' || c == ' ') rest).bind time? with
    | some [] => true
    | some rest => offset? rest == some []
    | none => false
  | none => time? s == some []

/-- The characters of a run. -/
def inRun (c : Char) : Bool :=
  c.isAlphanum || c == '_' || c == '-' || c == '+' || c == '.' || c == ':'

/-- A run at the front and what follows; between a date and a time may stand a space. -/
def takeRun (s : List Char) : List Char × List Char :=
  let run := s.takeWhile inRun
  let rest := s.dropWhile inRun
  match rest with
  | ' ' :: c :: more =>
    if date? run == some [] && c.isDigit then
      (run ++ ' ' :: (c :: more).takeWhile inRun, (c :: more).dropWhile inRun)
    else (run, rest)
  | _ => (run, rest)

end TreeGrammar.Toml
