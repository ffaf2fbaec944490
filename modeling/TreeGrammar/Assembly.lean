import TreeGrammar.Grammar

/-! # Assembly — building trees and grammars on a stack

    A step takes its operands from the top of a stack and puts its result there.  A
    step that fails leaves the stack as it was.  The number of operands is checked
    before anything else. -/

namespace TreeGrammar.Assembly

/-- Why a step fails. -/
inductive Fault where
  /-- The stack has too few operands. -/
  | emptyStack
  /-- There is no such step. -/
  | unknownStep
  /-- The operands make no node. -/
  | refused (e : Error)
  deriving DecidableEq, Repr

/-- Takes so many operands from a stack whose top is its head; the deepest comes first. -/
def take {α : Type} (count : Nat) (stack : List α) : Except Fault (List α × List α) :=
  if count ≤ stack.length then .ok ((stack.take count).reverse, stack.drop count)
  else .error .emptyStack

/-- A step on a stack of trees. -/
inductive TreeStep where
  | push (t : Tree)
  | named (name : String)
  /-- A call with so many arguments, the function below them. -/
  | function (arguments : Nat)
  /-- A node with a user tag over so many children. -/
  | user (name : String) (children : Nat)

/-- The operator that a step applies: by its own name or by a sign. -/
def operatorOf? (name : String) : Option Op :=
  match name with
  | "neg" => some .negate
  | "not" => some .logicalNot
  | "+" => some .plus
  | "-" => some .minus
  | "*" => some .multiplies
  | "/" => some .divides
  | "%" => some .modulus
  | "&" => some .bitwiseAnd
  | "|" => some .bitwiseOr
  | "^" => some .bitwiseXor
  | "<<" => some .shiftLeft
  | ">>" => some .shiftRight
  | _ => (Op.ofName? name).filter fun op => op != .terminal && op != .function

/-- Puts a node made of operands on the stack. -/
def pushNode (tag : Tag) (operands stack : List Tree) : Except Fault (List Tree) :=
  match Tree.make tag operands with
  | .ok t => .ok (t :: stack)
  | .error e => .error (.refused e)

/-- Carries out a step on a stack of trees. -/
def TreeStep.run (stack : List Tree) : TreeStep → Except Fault (List Tree)
  | push t => .ok (t :: stack)
  | named "unit" => .ok (.leaf .unit :: stack)
  | named "dup" =>
    match stack with
    | t :: _ => .ok (t :: stack)
    | [] => .error .emptyStack
  | named name =>
    match operatorOf? name with
    | some op => do
      let (operands, rest) ← take (op.arity?.getD 0) stack
      pushNode (.builtin op) operands rest
    | none => .error .unknownStep
  | function arguments => do
    let (operands, rest) ← take (arguments + 1) stack
    pushNode (.builtin .function) operands rest
  | user name children => do
    let (operands, rest) ← take children stack
    pushNode (.user name) operands rest

/-- A step on a stack of grammars. -/
inductive GrammarStep where
  | push (g : Grammar)
  | named (name : String)

/-- Carries out a step on a stack of grammars. -/
def GrammarStep.run (stack : List Grammar) : GrammarStep → Except Fault (List Grammar)
  | push g => .ok (g :: stack)
  | named "&" =>
    match stack with
    | b :: a :: rest => .ok (a.both b :: rest)
    | _ => .error .emptyStack
  | named "|" =>
    match stack with
    | b :: a :: rest => .ok (a.either b :: rest)
    | _ => .error .emptyStack
  | named "!" =>
    match stack with
    | a :: rest => .ok (.except a :: rest)
    | _ => .error .emptyStack
  | named _ => .error .unknownStep

end TreeGrammar.Assembly
