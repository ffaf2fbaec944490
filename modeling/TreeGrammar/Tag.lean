/-! # Tags — what labels the nodes of a tree

    Every node carries a tag: one of the built-in operators, or a name given by
    the user.  An operator with a fixed number of operands fixes the number of
    children of the nodes it labels.  Operators are written in lower case with
    underscores; a name that no operator bears is a user tag. -/

namespace TreeGrammar

/-- The built-in operators. -/
inductive Op where
  | terminal
  | negate
  | logicalNot
  | complement
  | plus
  | minus
  | multiplies
  | divides
  | modulus
  | less
  | lessEqual
  | greater
  | greaterEqual
  | equalTo
  | notEqualTo
  | logicalAnd
  | logicalOr
  | bitwiseAnd
  | bitwiseOr
  | bitwiseXor
  | shiftLeft
  | shiftRight
  | assign
  | subscript
  | comma
  | ifElse
  | function
  deriving DecidableEq, Repr, Inhabited

namespace Op

/-- Every operator, in the order of declaration. -/
def all : List Op :=
  [.terminal, .negate, .logicalNot, .complement, .plus, .minus, .multiplies, .divides,
    .modulus, .less, .lessEqual, .greater, .greaterEqual, .equalTo, .notEqualTo,
    .logicalAnd, .logicalOr, .bitwiseAnd, .bitwiseOr, .bitwiseXor, .shiftLeft,
    .shiftRight, .assign, .subscript, .comma, .ifElse, .function]

/-- The written name of an operator. -/
def name : Op → String
  | terminal => "terminal"
  | negate => "negate"
  | logicalNot => "logical_not"
  | complement => "complement"
  | plus => "plus"
  | minus => "minus"
  | multiplies => "multiplies"
  | divides => "divides"
  | modulus => "modulus"
  | less => "less"
  | lessEqual => "less_equal"
  | greater => "greater"
  | greaterEqual => "greater_equal"
  | equalTo => "equal_to"
  | notEqualTo => "not_equal_to"
  | logicalAnd => "logical_and"
  | logicalOr => "logical_or"
  | bitwiseAnd => "bitwise_and"
  | bitwiseOr => "bitwise_or"
  | bitwiseXor => "bitwise_xor"
  | shiftLeft => "shift_left"
  | shiftRight => "shift_right"
  | assign => "assign"
  | subscript => "subscript"
  | comma => "comma"
  | ifElse => "if_else"
  | function => "function"

/-- The operator that bears a name. -/
def ofName? (s : String) : Option Op :=
  all.find? fun op => op.name == s

/-- The fixed number of children under an operator; `function` takes any number. -/
def arity? : Op → Option Nat
  | terminal => some 0
  | negate | logicalNot | complement => some 1
  | ifElse => some 3
  | function => none
  | _ => some 2

/-- No two operators have the same name, so that a name is that of its operator. -/
theorem ofName?_name (op : Op) : ofName? op.name = some op := by
  cases op <;> decide

end Op

/-- A built-in operator or a name of the user's own. -/
inductive Tag where
  | builtin (op : Op)
  | user (name : String)
  deriving DecidableEq, Repr, Inhabited

namespace Tag

/-- The tag a name stands for: the operator of that name, else a user tag. -/
def ofName (s : String) : Tag :=
  match Op.ofName? s with
  | some op => .builtin op
  | none => .user s

/-- The written name of a tag; an operator and a user tag may share it. -/
def name : Tag → String
  | .builtin op => op.name
  | .user s => s

/-- The operator of a tag, when it is built in. -/
def op? : Tag → Option Op
  | .builtin op => some op
  | .user _ => none

/-- Holds of the tag that every leaf carries. -/
def isTerminal : Tag → Bool
  | .builtin .terminal => true
  | _ => false

/-- The fixed number of children under a tag, if it fixes one. -/
def arity? (t : Tag) : Option Nat :=
  t.op?.bind Op.arity?

/-- The name of an operator stands for the operator, never for a user tag. -/
theorem ofName_name (op : Op) : ofName op.name = .builtin op := by
  rw [ofName, Op.ofName?_name]

end Tag

end TreeGrammar
