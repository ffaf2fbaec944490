import TreeGrammar.Tag

/-! # Errors — why a computation gives no answer

    Each constructor is one cause; `Error.message` words it. -/

namespace TreeGrammar

/-- Why a tag and a list of children make no node. -/
inductive ShapeFault where
  | childrenUnderTerminal
  | noChildren
  | wrongCount (expected found : Nat)
  deriving DecidableEq, Repr

/-- The wording of a fault of shape. -/
def ShapeFault.reason : ShapeFault → String
  | .childrenUnderTerminal => "terminals hold a value, not children"
  | .noChildren => "composite nodes need at least one child"
  | .wrongCount expected found => s!"expected {expected} children, got {found}"

/-- Why a grammar or an action fails on a node. -/
inductive Error where
  /-- No alternative of a grammar run as an action accepts the node. -/
  | noMatch (tag : Tag) (arity : Nat)
  /-- The pattern that guards an action rejects the node. -/
  | whenPrecondition (tag : Tag) (arity : Nat)
  /-- What stands in the place of a function is none. -/
  | notCallable (found : String)
  /-- A function gets the wrong number of arguments. -/
  | arityMismatch (callee : String) (expected found : Nat)
  /-- The node has no child of this index. -/
  | childOutOfRange (tag : Tag) (arity index : Nat)
  /-- The node is not a leaf and so holds no value. -/
  | notTerminal (tag : Tag) (arity : Nat)
  /-- A node is needed and a function is found. -/
  | notANode (found : String)
  /-- The tag and the children make no node. -/
  | invalidNode (tag : Tag) (fault : ShapeFault)
  /-- The operands of an operator are of kinds it does not take. -/
  | typeMismatch (operator : String) (found : String)
  /-- An integer is divided by zero. -/
  | divisionByZero (operator : String)
  /-- An integer leaves the range of 64 bits. -/
  | overflow (operator : String)
  /-- The tag has no built-in meaning. -/
  | noDefault (tag : Tag)
  /-- There is no enclosing grammar to recurse into. -/
  | unboundRecursion
  /-- The limit on nested steps is reached. -/
  | depthExceeded (limit : Nat)
  /-- A user's function or leaf fails with a text of its own. -/
  | custom (message : String)
  deriving DecidableEq, Repr

/-- The result of a computation that can fail. -/
abbrev Outcome := Except Error

/-- An outcome as a step of a computation that may do more than fail. -/
def Outcome.lift {m : Type → Type} [Monad m] [MonadExcept Error m] {α : Type} :
    Outcome α → m α
  | .ok a => pure a
  | .error e => throw e

@[simp] theorem Outcome.lift_eq {α : Type} (o : Outcome α) :
    (Outcome.lift o : Outcome α) = o := by
  cases o <;> rfl

namespace Error

/-- The wording of an error. -/
def message : Error → String
  | noMatch tag arity =>
    s!"No alternative of the grammar matches the node `{tag.name}` of arity {arity}. A grammar used as an action must accept its input."
  | whenPrecondition tag arity =>
    s!"The pattern guarding a `when` action rejects the node `{tag.name}` of arity {arity}. `when` may only run on nodes selected by its pattern."
  | notCallable found =>
    s!"The function part of a call evaluated to {found}, which is not callable."
  | arityMismatch callee expected found =>
    s!"Function `{callee}` expects {expected} argument(s) but {found} were computed."
  | childOutOfRange tag arity index =>
    s!"Child #{index} requested on node `{tag.name}` which only has {arity} child(ren)."
  | notTerminal tag arity =>
    s!"Node `{tag.name}` of arity {arity} is not a terminal and holds no value."
  | notANode found => s!"Expected an expression node but the action produced {found}."
  | invalidNode tag fault => s!"Cannot build a node tagged `{tag.name}`: {fault.reason}."
  | typeMismatch operator found =>
    s!"Operator `{operator}` cannot be applied to operand(s) {found}."
  | divisionByZero operator => s!"Division by zero while evaluating `{operator}`."
  | overflow operator => s!"Integer overflow while evaluating `{operator}`."
  | noDefault tag => s!"Tag `{tag.name}` has no default evaluation semantics."
  | unboundRecursion =>
    "`recurse` was reached outside of an enclosing grammar. Wrap the action into an algorithm or match through a grammar."
  | depthExceeded limit =>
    s!"Maximum recursion depth of {limit} exceeded while transforming the expression."
  | custom message => message

end Error

end TreeGrammar
