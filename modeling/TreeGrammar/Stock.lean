import TreeGrammar.Engine
import TreeGrammar.Print

/-! # A stock of functions and leaves

    Ready-made computations that grammars and actions can name: functions that join,
    count, pair and compare values or look up operators, and leaves that measure and
    describe a node, collect text, or look up a symbol among bindings.  To look up an
    operator makes a new function, so these computations run in `Making`. -/

namespace TreeGrammar.Stock

/-- The truth value as a value. -/
def truth (b : Bool) : Value :=
  .lit (.bool b)

/-- The natural number as a value. -/
def count (n : Nat) : Value :=
  .lit (.int (Int64.ofNat n))

/-- The text as a value. -/
def text (s : String) : Value :=
  .lit (.str s)

/-- Computations that can make functions; the state is the identity of the next one. -/
abbrev Making := StateT Nat Outcome

/-- A new identity. -/
def fresh : Making Nat :=
  modifyGet fun n => (n, n + 1)

/-- The operator whose name a value holds. -/
def operatorNamed (v : Value) : Outcome Op :=
  match v.literal? with
  | some (.str name) =>
    match Op.ofName? name with
    | some op => .ok op
    | none => .error (.custom s!"no operator {name}")
  | _ => .error (.custom "operator name expected")

/-- The meaning of the functions that only compute, by name. -/
def callFunction (name : String) (args : List Value) : Outcome Value :=
  match name, args with
  | "concat", _ => .ok (text (String.join (args.map Value.text)))
  | "count", _ => .ok (count args.length)
  | "fail", _ => .error (.custom s!"fail with {args.length} args")
  | "zero", _ => .ok (count 0)
  | "pair", [a, b] => do return .node (← Tree.make (.user "pair") [← a.toTree, ← b.toTree])
  | "same", [a, b] => .ok (truth (a.equal b))
  | _, _ => .error (.custom s!"no function {name}")

/-- The fixed number of arguments of a function, if it has one. -/
def arityOf? : String → Option Nat
  | "zero" => some 0
  | "pair" => some 2
  | "same" => some 2
  | "get_op" => some 1
  | _ => none

/-- The function of a name. -/
def function (name : String) (identity : Nat) : Func :=
  ⟨name, arityOf? name, identity, .named name⟩

/-- Whether a tree is a leaf that holds this symbol. -/
def isSymbol (name : String) (t : Tree) : Bool :=
  match t.value? with
  | some (.sym s) => s == name
  | _ => false

/-- Whether the first child of a tree holds an integer. -/
def leftIsInt (t : Tree) : Bool :=
  ((t.child? 0).bind Tree.value?).any fun l => l.int?.isSome

/-- The value of the first binding of a symbol; a binding is a node of a symbol and its value. -/
def lookUp (t : Tree) (data : Value) : Outcome Value :=
  match t.value?, data with
  | some (.sym name), .node bindings =>
    match bindings.children.find? fun b => (b.child? 0).any (isSymbol name) with
    | some b =>
      match (b.child? 1).bind Tree.value? with
      | some l => .ok (.lit l)
      | none => .error (.custom "binding without value")
    | none => .error (.custom s!"unbound placeholder `{name}`")
  | some (.sym _), _ => .error (.custom "no bindings")
  | _, _ => .error (.custom "not a placeholder")

/-- The state, a string, with the text of the node behind it. -/
def append (t : Tree) (state : Value) : Outcome Value :=
  match state.literal? with
  | some (.str s) => .ok (text (s ++ t.text))
  | _ => .error (.custom "accumulator must be a string")

/-- The meaning of the leaves by name. -/
def runLeaf (name : String) (t : Tree) (state data : Value) : Outcome Value :=
  match name with
  | "size" => .ok (count t.size)
  | "depth" => .ok (count t.depth)
  | "arity" => .ok (count t.arity)
  | "tag" => .ok (text t.tag.name)
  | "is_terminal" => .ok (truth t.isTerminal)
  | "left_is_int" => .ok (truth (leftIsInt t))
  | "describe" => .ok (text s!"{t.arity}:{state.text}:{data.text}")
  | "append" => append t state
  | "lookup" => lookUp t data
  | "fail" => .error (.custom "nope")
  | _ => .error (.custom s!"no leaf {name}")

/-- The meaning of all functions by name. -/
def runFunction (name : String) (args : List Value) : Making Value :=
  match name, args with
  | "get_op", [v] => do return .func (.ofOp (← Outcome.lift (operatorNamed v)) (← fresh))
  | _, _ => Outcome.lift (callFunction name args)

/-- The functions and leaves of the stock. -/
def library : Library Making where
  function := runFunction
  leaf name t state data := Outcome.lift (runLeaf name t state data)

end TreeGrammar.Stock
