import TreeGrammar.Error
import TreeGrammar.Literal

/-! # Trees — what grammars match and actions compute with

    A tree is a leaf that holds a literal, or a node with a tag and children.  Trees
    are built by `Tree.make`, which refuses the shapes that are no nodes: children
    under the tag of leaves, no children at all, and a number of children other than
    the operator's own.  `Tree.WellFormed` says that a tree has no such node. -/

namespace TreeGrammar

/-- A leaf with its value, or a node with its tag and children. -/
inductive Tree where
  | leaf (value : Literal)
  | node (tag : Tag) (children : List Tree)
  deriving Inhabited

namespace Tree

/-- The tag of a tree; every leaf has the same one. -/
def tag : Tree → Tag
  | leaf _ => .builtin .terminal
  | node t _ => t

/-- The children, from left to right. -/
def children : Tree → List Tree
  | leaf _ => []
  | node _ cs => cs

/-- The number of children. -/
def arity (t : Tree) : Nat :=
  t.children.length

/-- The value a leaf holds. -/
def value? : Tree → Option Literal
  | leaf v => some v
  | node _ _ => none

/-- Holds of trees without children. -/
def isTerminal (t : Tree) : Bool :=
  t.arity == 0

/-- The child of an index, from the left and from zero. -/
def child? (t : Tree) (i : Nat) : Option Tree :=
  t.children[i]?

/-- The child of an index, or the error that there is none. -/
def child (t : Tree) (i : Nat) : Outcome Tree :=
  match t.child? i with
  | some c => .ok c
  | none => .error (.childOutOfRange t.tag t.arity i)

/-- What is wrong with a tag over a number of children, if anything is. -/
def shapeFault? (tag : Tag) (count : Nat) : Option ShapeFault :=
  if tag.isTerminal then some .childrenUnderTerminal
  else if count = 0 then some .noChildren
  else
    match tag.arity? with
    | some expected => if expected = count then none else some (.wrongCount expected count)
    | none => none

/-- Builds a node, or refuses its shape. -/
def make (tag : Tag) (children : List Tree) : Outcome Tree :=
  match shapeFault? tag children.length with
  | none => .ok (node tag children)
  | some fault => .error (.invalidNode tag fault)

mutual
/-- The number of leaves and nodes. -/
def size : Tree → Nat
  | leaf _ => 1
  | node _ cs => 1 + sizes cs
/-- The number of leaves and nodes in all trees of a list. -/
def sizes : List Tree → Nat
  | [] => 0
  | c :: cs => size c + sizes cs
end

mutual
/-- The number of trees on the longest way down. -/
def depth : Tree → Nat
  | leaf _ => 1
  | node _ cs => 1 + depths cs
/-- The greatest depth in a list of trees. -/
def depths : List Tree → Nat
  | [] => 0
  | c :: cs => max (depth c) (depths cs)
end

mutual
/-- The values of the leaves, from left to right. -/
def literals : Tree → List Literal
  | leaf v => [v]
  | node _ cs => literalsOf cs
/-- The values of the leaves of all trees of a list. -/
def literalsOf : List Tree → List Literal
  | [] => []
  | c :: cs => literals c ++ literalsOf cs
end

mutual
/-- Whether every node has a shape that `make` accepts. -/
def isWellFormed : Tree → Bool
  | leaf _ => true
  | node tag cs => (shapeFault? tag cs.length).isNone && areWellFormed cs
/-- Whether all trees of a list are well-formed. -/
def areWellFormed : List Tree → Bool
  | [] => true
  | c :: cs => isWellFormed c && areWellFormed cs
end

/-- Every node of the tree has a shape that `make` accepts. -/
def WellFormed (t : Tree) : Prop :=
  t.isWellFormed = true

instance (t : Tree) : Decidable t.WellFormed :=
  inferInstanceAs (Decidable (t.isWellFormed = true))

end Tree

end TreeGrammar
