import TreeGrammar.Grammar
import TreeGrammar.Layout.Form

/-! # Printing — trees, grammars and actions as forms

    Trees print as the text they are read from: a leaf as its literal, a node as a
    list with its tag at the head.  Grammars and actions print in the same way, a
    keyword at the head, and without a reading.  The usual width is eighty columns. -/

namespace TreeGrammar

open Layout (Atom Form Style)

/-- The usual width of printed text. -/
def standardWidth : Nat := 80

namespace Print

/-- An atom in the style of keywords. -/
def keyword (s : String) : Atom :=
  ⟨.keyword, s⟩

/-- The atom of a tag. -/
def tag (t : Tag) : Atom :=
  ⟨match t with | .builtin _ => .operator | .user _ => .ident, t.name⟩

/-- The atom of a tag, or of the sign for any. -/
def tagOrAny (t? : Option Tag) : Atom :=
  match t? with
  | some t => tag t
  | none => ⟨.punct, "*"⟩

/-- The atom of a literal. -/
def literal (l : Literal) : Atom :=
  ⟨match l with | .sym _ => .ident | _ => .literal, l.text⟩

mutual
/-- The form of a tree. -/
def tree : Tree → Form
  | .leaf v => .atom (literal v)
  | .node t cs => .list (tag t) (trees cs)
/-- The forms of a list of trees. -/
def trees : List Tree → List Form
  | [] => []
  | c :: cs => tree c :: trees cs
end

/-- The form of a value; a tree is quoted. -/
def value : Value → Form
  | .lit l => .atom (literal l)
  | .node t => .list (keyword "quote") [tree t]
  | .func f => .atom ⟨.ident, s!"<{f.name}>"⟩

/-- A list headed by a keyword. -/
def listOf (head : String) (items : List Form) : Form :=
  .list (keyword head) items

/-- A list for a part that may be missing. -/
def named (head : String) : List Form → List Form
  | [] => []
  | items => [listOf head items]

mutual
/-- The form of a grammar. -/
def grammar : Grammar → Form
  | .wildcard => .atom ⟨.punct, "_"⟩
  | .exact s => listOf "exact" [.atom ⟨.literal, s.text⟩]
  | .terminal none => listOf "terminal" []
  | .terminal (some k) => listOf "terminal" [.atom ⟨.literal, k.name⟩]
  | .literal l => listOf "literal" [.atom (literal l)]
  | .node t? gs => .list (tagOrAny t?) (grammars gs)
  | .vararg t? leading rest =>
    listOf "vararg" (.atom (tagOrAny t?) :: (grammars leading ++ [listOf "rest" [grammar rest]]))
  | .all gs => listOf "and" (grammars gs)
  | .any gs => listOf "or" (grammars gs)
  | .except g => listOf "not" [grammar g]
  | .choose c yes no => listOf "if" [action c, grammar yes, grammar no]
  | .switch cs => listOf "switch" (cases cs)
  | .recurse => .atom (keyword "recurse")
/-- The forms of a list of grammars. -/
def grammars : List Grammar → List Form
  | [] => []
  | g :: gs => grammar g :: grammars gs
/-- The form of a case. -/
def case : Case → Form
  | ⟨pattern, body⟩ => listOf "case" (grammar pattern :: actions body)
/-- The forms of a list of cases. -/
def cases : List Case → List Form
  | [] => []
  | c :: cs => case c :: cases cs
/-- The form of an action. -/
def action : Action → Form
  | .constant v => value v
  | .arg which => .atom (keyword which.name)
  | .child i => listOf "child" [.atom ⟨.literal, String.ofList (Number.digitsOf i)⟩]
  | .value => .atom (keyword "value")
  | .passThrough => .atom (keyword "pass_through")
  | .call function args => listOf "call" (action function :: actions args)
  | .when pattern inner? => listOf "when" (grammar pattern :: actionIfAny inner?)
  | .algorithm g => listOf "algorithm" [grammar g]
  | .leaf name => listOf "leaf" [.atom ⟨.ident, name⟩]
  | .invoke a target state? data? =>
    listOf "invoke" (action a :: action target ::
      (named "state" (actionIfAny state?) ++ named "data" (actionIfAny data?)))
  | .fold start step reverse =>
    listOf (if reverse then "reverse_fold" else "fold") [action start, action step]
  | .make t args => listOf "make" (.atom (tag t) :: actions args)
  | .evaluate none => .atom (keyword "evaluate")
  | .evaluate (some a) => listOf "evaluate" [action a]
  | .recurse => .atom (keyword "recurse")
/-- The forms of a list of actions. -/
def actions : List Action → List Form
  | [] => []
  | a :: as => action a :: actions as
/-- The form of an action, if there is one. -/
def actionIfAny : Option Action → List Form
  | none => []
  | some a => [action a]
end

end Print

/-- The text of a tree in a width. -/
def Tree.render (t : Tree) (width : Nat) : String :=
  (Print.tree t).text width

/-- The text of a tree in the usual width. -/
def Tree.text (t : Tree) : String :=
  t.render standardWidth

/-- The text of a grammar in the usual width. -/
def Grammar.text (g : Grammar) : String :=
  (Print.grammar g).text standardWidth

/-- The text of an action in the usual width. -/
def Action.text (a : Action) : String :=
  (Print.action a).text standardWidth

/-- The text of a value; a tree stands without a quote. -/
def Value.text : Value → String
  | .lit l => l.text
  | .node t => t.text
  | .func f => s!"<{f.name}>"

end TreeGrammar
