import TreeGrammar.Number.Decimal
import TreeGrammar.Text.Quoted
import TreeGrammar.Text.Word

/-! # Literals — the values that leaves hold

    A literal is the unit value, a truth value, an integer of 64 bits, a double, a
    string, or a symbol: a name that stands for something else.  Two literals are
    equal when they are of one kind and their contents are equal, doubles as
    numbers: `0.0` equals `-0.0`, and a NaN equals nothing. -/

namespace TreeGrammar

/-- A value held by a leaf. -/
inductive Literal where
  | unit
  | bool (b : Bool)
  | int (n : Int64)
  | float (x : Float)
  | str (s : String)
  | sym (s : String)
  deriving DecidableEq, Inhabited

/-- The six kinds of literal. -/
inductive Kind where
  | unit
  | bool
  | int
  | float
  | str
  | sym
  deriving DecidableEq, Repr, Inhabited

/-- The written name of a kind. -/
def Kind.name : Kind → String
  | .unit => "Unit"
  | .bool => "Bool"
  | .int => "Int"
  | .float => "Float"
  | .str => "Str"
  | .sym => "Sym"

namespace Literal

/-- The kind of a literal. -/
def kind : Literal → Kind
  | .unit => .unit
  | .bool _ => .bool
  | .int _ => .int
  | .float _ => .float
  | .str _ => .str
  | .sym _ => .sym

/-- The truth value held, if any. -/
def bool? : Literal → Option Bool
  | .bool b => some b
  | _ => none

/-- The integer held, if any. -/
def int? : Literal → Option Int64
  | .int n => some n
  | _ => none

/-- The number held as a double, an integer rounded to the nearest one. -/
def float? : Literal → Option Float
  | .float x => some x
  | .int n => some (Float.ofInt n.toInt)
  | _ => none

/-- Equality of literals as values. -/
def equal : Literal → Literal → Bool
  | .unit, .unit => true
  | .bool a, .bool b => a == b
  | .int a, .int b => a == b
  | .float a, .float b => a == b
  | .str a, .str b => a == b
  | .sym a, .sym b => a == b
  | _, _ => false

/-- The words that stand for literals and so for no symbol. -/
def reservedWords : List String := ["true", "false", "inf", "nan"]

/-- Holds of symbols written bare: words that are not reserved. -/
def isPlainSymbol (s : String) : Bool :=
  Text.isWord s.toList && !reservedWords.contains s

/-- The written form of a literal. -/
def text : Literal → String
  | .unit => "()"
  | .bool true => "true"
  | .bool false => "false"
  | .int n => String.ofList (Number.intText n.toInt)
  | .float x => String.ofList (Number.floatText x)
  | .str s => String.ofList (Text.quote '"' s.toList)
  | .sym s => if isPlainSymbol s then s else String.ofList (Text.quote '|' s.toList)

end Literal

end TreeGrammar
