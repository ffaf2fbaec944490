import TreeGrammar.Value

/-! # Grammars and actions

    A grammar is a pattern over trees.  An action computes a value from a node, a
    state and a datum.  The two refer to each other: a switch pairs patterns with
    actions, a condition is an action that chooses between patterns, and a grammar can
    itself be run as an action.  Inside a grammar, `recurse` means the innermost
    grammar that is being matched or run. -/

namespace TreeGrammar

/-- What an action is given: the node itself, the state or the datum. -/
inductive Arg where
  | this
  | state
  | data
  deriving DecidableEq, Repr

/-- The written name of an argument. -/
def Arg.name : Arg → String
  | this => "this"
  | state => "state"
  | data => "data"

mutual
/-- A pattern over trees. -/
inductive Grammar where
  /-- Every tree. -/
  | wildcard
  /-- The trees with this signature. -/
  | exact (signature : Signature)
  /-- The leaves, or those that hold a literal of this kind. -/
  | terminal (kind? : Option Kind)
  /-- The leaves that hold this literal. -/
  | literal (value : Literal)
  /-- Trees with this tag, or any, and one child for each pattern. -/
  | node (tag? : Option Tag) (children : List Grammar)
  /-- Nodes with this tag, or any, whose first children are met by `leading` and all others by
  `rest`. -/
  | vararg (tag? : Option Tag) (leading : List Grammar) (rest : Grammar)
  /-- What all members accept. -/
  | all (members : List Grammar)
  /-- What an alternative accepts. -/
  | any (alternatives : List Grammar)
  /-- What the grammar rejects. -/
  | except (inner : Grammar)
  /-- The one or the other, as the condition says. -/
  | choose (condition : Action) (yes no : Grammar)
  /-- What the pattern of a case accepts. -/
  | switch (cases : List Case)
  /-- The innermost enclosing grammar. -/
  | recurse
/-- A pattern and what to do with the nodes it accepts: run the pattern if the body is empty, run
the action if it is one, and otherwise call the first with the others. -/
structure Case where
  pattern : Grammar
  body : List Action
/-- A computation over a node, a state and a datum. -/
inductive Action where
  /-- Always this value. -/
  | constant (value : Value)
  /-- The node, the state or the datum. -/
  | arg (which : Arg)
  /-- The child of this index. -/
  | child (index : Nat)
  /-- The literal that the leaf holds. -/
  | value
  /-- The node, built anew from all its parts. -/
  | passThrough
  /-- The value of a function at computed arguments. -/
  | call (function : Action) (arguments : List Action)
  /-- The inner action on a node that the pattern accepts; without one the configuration decides. -/
  | when (pattern : Grammar) (inner? : Option Action)
  /-- The grammar run as an action; inside it, `recurse` means this grammar. -/
  | algorithm (grammar : Grammar)
  /-- A computation of the user's, known by its name. -/
  | leaf (name : String)
  /-- An action on a computed node, with computed state and datum if they are given. -/
  | invoke (action target : Action) (state? data? : Option Action)
  /-- The state carried through the children, from the left or from the right. -/
  | fold (start step : Action) (reverse : Bool)
  /-- A node built from computed children, or a leaf from one computed literal. -/
  | make (tag : Tag) (arguments : List Action)
  /-- The meaning of the operator, the children computed by `inner?` or in the same way. -/
  | evaluate (inner? : Option Action)
  /-- The innermost enclosing grammar, run as an action. -/
  | recurse
end

instance : Inhabited Grammar := ⟨.wildcard⟩
instance : Inhabited Case := ⟨⟨.wildcard, []⟩⟩
instance : Inhabited Action := ⟨.recurse⟩

namespace Grammar

/-- The grammar of the trees that have the same signature as one tree. -/
def exactOf (t : Tree) : Grammar :=
  exact (.of t)

/-- The members of a conjunction; any other grammar is its own only member. -/
def members : Grammar → List Grammar
  | all gs => gs
  | g => [g]

/-- The alternatives of a disjunction; any other grammar is its own only alternative. -/
def alternatives : Grammar → List Grammar
  | any gs => gs
  | g => [g]

/-- Conjunction, nested ones joined into one list. -/
def both (a b : Grammar) : Grammar :=
  all (a.members ++ b.members)

/-- Disjunction, nested ones joined into one list. -/
def either (a b : Grammar) : Grammar :=
  any (a.alternatives ++ b.alternatives)

/-- A case that runs an action. -/
def runs (g : Grammar) (a : Action) : Case :=
  ⟨g, [a]⟩

/-- A case that calls a function. -/
def calls (g : Grammar) (function : Action) (arguments : List Action) : Case :=
  ⟨g, function :: arguments⟩

/-- A case that runs its own pattern. -/
def itself (g : Grammar) : Case :=
  ⟨g, []⟩

end Grammar

end TreeGrammar
