import TreeGrammar.Value
import TreeGrammar.Number.Integer

/-! # Operators — their built-in meaning

    Integer arithmetic is exact or fails, and an integer beside a double becomes one.
    `plus` also joins strings.  Logical operators take truth values and integers, of
    which zero is false.  Ordering compares numbers, strings by code points, or truth
    values; equality compares any two literals.  `assign`, `subscript` and `function`
    have no meaning. -/

namespace TreeGrammar.Builtin

/-- The error of operands of the wrong kinds. -/
def mismatch (op : Op) (operands : List Literal) : Error :=
  .typeMismatch op.name (", ".intercalate (operands.map fun l => s!"`{l.text}`"))

/-- The literal of an operand. -/
def literalOf (op : Op) (v : Value) : Outcome Literal :=
  match v.literal? with
  | some l => .ok l
  | none => .error (.typeMismatch op.name v.describe)

/-- The truth of a literal operand. -/
def literalTruth (op : Op) : Literal → Outcome Bool
  | .bool b => .ok b
  | .int n => .ok (n != 0)
  | l => .error (mismatch op [l])

/-- The truth of an operand. -/
def truth (op : Op) (v : Value) : Outcome Bool := do
  literalTruth op (← literalOf op v)

/-- The exact result of an arithmetic operator, if 64 bits hold it. -/
def onInts : Op → Int → Int → Option Int64
  | .plus, x, y => Number.int64? (x + y)
  | .minus, x, y => Number.int64? (x - y)
  | .multiplies, x, y => Number.int64? (x * y)
  | .divides, x, y => Number.quotient? x y
  | _, x, y => Number.remainder? x y

/-- The rounded result of an arithmetic operator. -/
def onFloats : Op → Float → Float → Float
  | .plus, x, y => x + y
  | .minus, x, y => x - y
  | .multiplies, x, y => x * y
  | .divides, x, y => x / y
  | _, x, y => Number.remainder x y

/-- Arithmetic on two numbers of any kind, one of them a double. -/
def mixed (op : Op) (a b : Literal) : Outcome Literal :=
  match a.float?, b.float? with
  | some x, some y => .ok (.float (onFloats op x y))
  | _, _ => .error (mismatch op [a, b])

/-- The five arithmetic operators. -/
def arithmetic (op : Op) (a b : Literal) : Outcome Literal :=
  match a, b with
  | .int x, .int y =>
    if (op = .divides ∨ op = .modulus) ∧ y = 0 then .error (.divisionByZero op.name)
    else
      match onInts op x.toInt y.toInt with
      | some n => .ok (.int n)
      | none => .error (.overflow op.name)
  | .str s, .str t => if op = .plus then .ok (.str (s ++ t)) else .error (mismatch op [a, b])
  | _, _ => mixed op a b

/-- The order of two literals; a NaN has none. -/
def order (op : Op) (a b : Literal) : Outcome (Option Ordering) :=
  match a, b with
  | .int x, .int y => .ok (some (compare x.toInt y.toInt))
  | .str s, .str t => .ok (some (compare s t))
  | .bool x, .bool y => .ok (some (compare x y))
  | _, _ =>
    match a.float?, b.float? with
    | some x, some y => .ok (Number.compare? x y)
    | _, _ => .error (mismatch op [a, b])

/-- Whether an order is what an ordering operator asks for. -/
def meets : Op → Option Ordering → Bool
  | .less, some o => o.isLT
  | .lessEqual, some o => o.isLE
  | .greater, some o => o.isGT
  | _, some o => o.isGE
  | _, none => false

/-- Equality of any two literals; an integer beside a double becomes one. -/
def equalTo (a b : Literal) : Bool :=
  match a, b with
  | .int n, .float x => Float.ofInt n.toInt == x
  | .float x, .int n => Float.ofInt n.toInt == x
  | _, _ => a.equal b

/-- The bitwise operators, on integers and on truth values. -/
def bitwise (op : Op) (a b : Literal) : Outcome Literal :=
  match op, a, b with
  | .bitwiseAnd, .int x, .int y => .ok (.int (x &&& y))
  | .bitwiseOr, .int x, .int y => .ok (.int (x ||| y))
  | .bitwiseXor, .int x, .int y => .ok (.int (x ^^^ y))
  | .bitwiseAnd, .bool x, .bool y => .ok (.bool (x && y))
  | .bitwiseOr, .bool x, .bool y => .ok (.bool (x || y))
  | .bitwiseXor, .bool x, .bool y => .ok (.bool (x ^^ y))
  | _, _, _ => .error (mismatch op [a, b])

/-- The shifts of integers. -/
def shift (op : Op) (a b : Literal) : Outcome Literal :=
  match a, b with
  | .int x, .int y =>
    match if op = .shiftLeft then Number.shiftLeft? x y else Number.shiftRight? x y with
    | some n => .ok (.int n)
    | none => .error (.overflow op.name)
  | _, _ => .error (mismatch op [a, b])

/-- The operators of one operand. -/
def unary (op : Op) (a : Literal) : Outcome Literal :=
  match op, a with
  | .negate, .int n =>
    match Number.int64? (-n.toInt) with
    | some k => .ok (.int k)
    | none => .error (.overflow op.name)
  | .negate, .float x => .ok (.float (-x))
  | .logicalNot, a => do return .bool (!(← literalTruth op a))
  | .complement, .int n => .ok (.int (~~~n))
  | _, _ => .error (mismatch op [a])

/-- The operators of two operands. -/
def binary (op : Op) (a b : Literal) : Outcome Literal :=
  match op with
  | .plus | .minus | .multiplies | .divides | .modulus => arithmetic op a b
  | .less | .lessEqual | .greater | .greaterEqual => do
    return .bool (meets op (← order op a b))
  | .equalTo => .ok (.bool (equalTo a b))
  | .notEqualTo => .ok (.bool (!equalTo a b))
  | .logicalAnd => do
    if ← literalTruth op a then return .bool (← literalTruth op b) else return .bool false
  | .logicalOr => do
    if ← literalTruth op a then return .bool true else return .bool (← literalTruth op b)
  | .bitwiseAnd | .bitwiseOr | .bitwiseXor => bitwise op a b
  | .shiftLeft | .shiftRight => shift op a b
  | _ => .error (.noDefault (.builtin op))

/-- Fails unless the number of arguments is the expected one. -/
def checkCount (callee : String) (expected? : Option Nat) (found : Nat) : Outcome Unit :=
  match expected? with
  | some expected =>
    if expected = found then .ok () else .error (.arityMismatch callee expected found)
  | none => .ok ()

/-- The meaning of an operator at operands that are already counted. -/
def applyCounted (op : Op) (args : List Value) : Outcome Value :=
  match op, args with
  | .terminal, [v] => .ok v
  | .comma, [_, v] => .ok v
  | .ifElse, [condition, yes, no] => do
    if ← truth op condition then return yes else return no
  | .assign, _ | .subscript, _ | .function, _ => .error (.noDefault (.builtin op))
  | _, [v] => do return .lit (← unary op (← literalOf op v))
  | _, [v, w] => do return .lit (← binary op (← literalOf op v) (← literalOf op w))
  | _, _ => .error (.noDefault (.builtin op))

/-- The meaning of an operator at computed operands. -/
def apply (op : Op) (args : List Value) : Outcome Value := do
  checkCount op.name (Func.operands? op) args.length
  applyCounted op args

end TreeGrammar.Builtin
