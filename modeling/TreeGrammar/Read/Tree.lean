import TreeGrammar.Read.Token
import TreeGrammar.Tree

/-! # Reading trees

    A text is read as a tree when its tokens are those of one tree: a literal, or a
    list of a word and at least one tree in parentheses whose shape `Tree.make`
    accepts.  The word at the head is always a tag. -/

namespace TreeGrammar.Read

/-- A list not yet closed: its head, and the trees read before it, the last one first. -/
structure Opened where
  head : String
  before : List Tree

/-- The trees that tokens stand for, the last one first, behind lists still open and trees read. -/
def forest? : List Token → List Opened → List Tree → Option (List Tree)
  | [], [], trees => some trees
  | [], _ :: _, _ => none
  | .literal l :: rest, stack, trees => forest? rest stack (.leaf l :: trees)
  | .opening head :: rest, stack, trees => forest? rest (⟨head, trees⟩ :: stack) []
  | .closing :: _, [], _ => none
  | .closing :: rest, o :: stack, trees =>
    match Tree.make (.ofName o.head) trees.reverse with
    | .ok t => forest? rest stack (t :: o.before)
    | .error _ => none

end TreeGrammar.Read

namespace TreeGrammar.Tree

/-- The tree that a text stands for. -/
def ofChars? (s : List Char) : Option Tree := do
  match ← Read.forest? (← Read.Token.list? s) [] [] with
  | [t] => some t
  | _ => none

/-- The tree that a text stands for. -/
def parse? (s : String) : Option Tree :=
  ofChars? s.toList

end TreeGrammar.Tree
