import TreeGrammar.Signature
import TreeGrammar.Tree.Equality

/-! # Values — what actions compute

    A value is a literal, a tree or a function.  A function is an operator's built-in
    meaning or one of the user's, which is known here by its name only.  It carries an
    identity, and two functions are the same when their identities are. -/

namespace TreeGrammar

/-- Where the meaning of a function is found. -/
inductive Meaning where
  | builtin (op : Op)
  | named (name : String)
  deriving DecidableEq, Repr

/-- A function: its name, the number of its arguments if that is fixed, its identity and meaning. -/
structure Func where
  name : String
  arity? : Option Nat
  identity : Nat
  meaning : Meaning
  deriving DecidableEq, Repr

namespace Func

/-- The number of arguments that the built-in meaning of an operator takes. -/
def operands? : Op → Option Nat
  | .terminal => some 1
  | op => op.arity?

/-- The built-in meaning of an operator as a function. -/
def ofOp (op : Op) (identity : Nat) : Func :=
  ⟨op.name, operands? op, identity, .builtin op⟩

/-- Whether two functions are one. -/
def same (f g : Func) : Bool :=
  f.identity == g.identity

end Func

/-- A literal, a tree or a function. -/
inductive Value where
  | lit (l : Literal)
  | node (t : Tree)
  | func (f : Func)
  deriving Inhabited

namespace Value

/-- The unit value. -/
def unit : Value :=
  .lit .unit

/-- The literal of a value, that of a leaf being the one it holds. -/
def literal? : Value → Option Literal
  | lit l => some l
  | node t => t.value?
  | func _ => none

/-- The function, if the value is one. -/
def func? : Value → Option Func
  | func f => some f
  | _ => none

/-- Short wording of a value in error messages. -/
def describe : Value → String
  | lit l => s!"literal `{l.text}`"
  | node t => s!"node `{t.tag.name}` of arity {t.arity}"
  | func f => s!"function `{f.name}`"

/-- A tree for the value, a literal becoming a leaf; a function has none. -/
def toTree : Value → Outcome Tree
  | node t => .ok t
  | lit l => .ok (.leaf l)
  | func f => .error (.notANode (describe (func f)))

/-- Equality of values; a literal is no leaf. -/
def equal : Value → Value → Bool
  | lit a, lit b => a.equal b
  | node a, node b => a.alike b
  | func f, func g => f.same g
  | _, _ => false

end Value

end TreeGrammar
