import TreeGrammar.Builtin
import TreeGrammar.Config
import TreeGrammar.Grammar
import TreeGrammar.Verdict

/-! # Levels — the steps of the engine, one inside another

    Matching and running call each other: a condition is an action, and a grammar run
    as an action is matched first.  All of it is bounded by one count of nested steps.
    A `Level` holds what can still be done from one depth on; the deepest level can do
    nothing, and `Level.above` makes the next one out of the level below it.  Nothing
    here recurses, so whatever `Level.above` keeps holds at every depth.

    The user's computations run in a monad of their own choice, in which errors can be
    thrown.  Those that only compute run in `Outcome`. -/

namespace TreeGrammar

/-- What the names of the user's functions and leaves mean. -/
structure Library (m : Type → Type) where
  function : String → List Value → m Value
  leaf : String → Tree → Value → Value → m Value

/-- What a step works with: the grammar that `recurse` means, the node, the state and the datum. -/
structure Site where
  root? : Option Grammar
  node : Tree
  state : Value
  data : Value

/-- What can be done from one depth on. -/
structure Level (m : Type → Type) where
  /-- Whether a grammar accepts a tree. -/
  accepts : Option Grammar → Tree → Grammar → m Bool
  /-- The value of an action. -/
  apply : Site → Action → m Value
  /-- The value of a grammar run as an action. -/
  transform : Site → Grammar → m Value
  /-- A node built anew from all its parts. -/
  rebuild : Tree → m Tree
  /-- The value of a node by the meaning of its operator. -/
  evaluate : Site → Option Action → m Value

variable {m : Type → Type} [Monad m] [MonadExcept Error m]

/-- The value of a function at computed arguments. -/
def Func.invoke (lib : Library m) (f : Func) (args : List Value) : m Value := do
  Outcome.lift (Builtin.checkCount f.name f.arity? args.length)
  match f.meaning with
  | .builtin op => Outcome.lift (Builtin.apply op args)
  | .named name => lib.function name args

namespace Level

/-- The error that a grammar run as an action accepts no such node. -/
def noMatch (t : Tree) : Error :=
  .noMatch t.tag t.arity

/-- The grammar that `recurse` means. -/
def root (root? : Option Grammar) : m Grammar :=
  match root? with
  | some g => pure g
  | none => throw .unboundRecursion

/-- Whether a pattern's tag is the tree's; the absent tag is every one. -/
def tagAccepts (tag? : Option Tag) (t : Tree) : Bool :=
  tag?.all (· == t.tag)

/-- The pattern that meets the child of an index. -/
def patternAt (leading : List Grammar) (rest : Grammar) (i : Nat) : Grammar :=
  leading.getD i rest

section Steps

variable (below : Level m)

/-- The verdict of a condition, computed with unit state and datum. -/
def condition (root? : Option Grammar) (t : Tree) (c : Action) : m Bool := do
  let v ← below.apply ⟨root?, t, .unit, .unit⟩ c
  match v.literal? with
  | some (.bool b) => return b
  | _ => throw (.typeMismatch "if" v.describe)

/-- The first case whose pattern accepts the tree. -/
def firstCase (root? : Option Grammar) (t : Tree) (cases : List Case) :
    m (Option (Nat × Case)) :=
  Verdict.first (fun c => below.accepts root? t c.pattern) cases

/-- The first alternative that accepts the tree. -/
def firstAlternative (root? : Option Grammar) (t : Tree) (gs : List Grammar) :
    m (Option (Nat × Grammar)) :=
  Verdict.first (below.accepts root? t) gs

/-- Matching, one step. -/
def acceptsStep (root? : Option Grammar) (t : Tree) : Grammar → m Bool
  | .wildcard => pure true
  | .exact signature => pure (signature.describes t)
  | .terminal kind? => pure (t.value?.any fun v => kind?.all (· == v.kind))
  | .literal l => pure (t.value?.any (·.equal l))
  | .node tag? gs =>
    if tagAccepts tag? t && t.arity == gs.length then
      (gs.zip t.children).allM fun (g, c) => below.accepts root? c g
    else pure false
  | .vararg tag? leading rest =>
    if t.isTerminal || !tagAccepts tag? t || t.arity < leading.length then pure false
    else t.children.zipIdx.allM fun (c, i) => below.accepts root? c (patternAt leading rest i)
  | .all gs => gs.allM (below.accepts root? t)
  | .any gs => gs.anyM (below.accepts root? t)
  | .except g => Verdict.negate (below.accepts root? t g)
  | .choose c yes no =>
    Verdict.choose (condition below root? t c) (fun _ => below.accepts root? t yes)
      (fun _ => below.accepts root? t no)
  | .switch cases => cases.anyM fun c => below.accepts root? t c.pattern
  | .recurse => do below.accepts root? t (← root root?)

/-- Fails unless the grammar accepts the node. -/
def ensure (s : Site) (g : Grammar) : m Unit := do
  if ← below.accepts s.root? s.node g then pure () else throw (noMatch s.node)

/-- Computes a function and its arguments, then invokes it. -/
def callStep (lib : Library m) (s : Site) (function : Action) (args : List Action) :
    m Value := do
  match ← below.apply s function with
  | .func f => f.invoke lib (← args.mapM (below.apply s))
  | v => throw (.notCallable v.describe)

/-- Runs the body of a case. -/
def caseStep (lib : Library m) (s : Site) (c : Case) : m Value :=
  match c.body with
  | [] => below.transform s c.pattern
  | [a] => below.apply s a
  | function :: args => callStep below lib s function args

/-- The node under its own tag, each child run by its pattern with the node as state. -/
def rebuildBy (s : Site) (pairs : List (Tree × Grammar)) : m Value := do
  if s.node.isTerminal then return .node s.node
  let children ← pairs.mapM fun (c, g) => do
    Outcome.lift (← below.transform { s with node := c, state := .node s.node } g).toTree
  return .node (← Outcome.lift (Tree.make s.node.tag children))

/-- Running a grammar, one step. -/
def transformStep (lib : Library m) (s : Site) (g : Grammar) : m Value := do
  match g with
  | .switch cases =>
    match ← firstCase below s.root? s.node cases with
    | some (_, c) => caseStep below lib s c
    | none => throw (noMatch s.node)
  | .any gs =>
    match ← firstAlternative below s.root? s.node gs with
    | some (_, g') => below.transform s g'
    | none => throw (noMatch s.node)
  | .all gs =>
    ensure below s g
    match gs.getLast? with
    | some last => below.transform s last
    | none => return .node s.node
  | .choose c yes no =>
    if ← condition below s.root? s.node c then below.transform s yes else below.transform s no
  | .node _ gs =>
    ensure below s g
    rebuildBy below s (s.node.children.zip gs)
  | .vararg _ leading rest =>
    ensure below s g
    rebuildBy below s (s.node.children.zipIdx.map fun (c, i) => (c, patternAt leading rest i))
  | .recurse => below.transform s (← root s.root?)
  | .wildcard | .exact _ | .terminal _ | .literal _ | .except _ =>
    ensure below s g
    return .node s.node

/-- A tree built anew; leaves stay as they are. -/
def copy (t : Tree) : m Tree :=
  if t.isTerminal then pure t else below.rebuild t

/-- Building a node anew, one step. -/
def rebuildStep (t : Tree) : m Tree := do
  Outcome.lift (Tree.make t.tag (← t.children.mapM (copy below)))

/-- The value of a child of an evaluated node. -/
def childValue (s : Site) (inner? : Option Action) (c : Tree) : m Value :=
  match inner? with
  | some a => below.apply { s with node := c } a
  | none => below.evaluate { s with node := c } none

/-- The value of a composite node by its operator; only the children that are needed are
computed. -/
def operatorValue (s : Site) (inner? : Option Action) (op : Op) : m Value := do
  let value (i : Nat) : m Value := do
    childValue below s inner? (← Outcome.lift (s.node.child i))
  let truth (i : Nat) : m Bool := do
    Outcome.lift (Builtin.truth op (← value i))
  match op with
  | .logicalAnd =>
    if ← truth 0 then return .lit (.bool (← truth 1)) else return .lit (.bool false)
  | .logicalOr =>
    if ← truth 0 then return .lit (.bool true) else return .lit (.bool (← truth 1))
  | .ifElse => if ← truth 0 then value 1 else value 2
  | _ => do
    Outcome.lift (Builtin.apply op (← s.node.children.mapM (childValue below s inner?)))

/-- Evaluating a node, one step. -/
def evaluateStep (s : Site) (inner? : Option Action) : m Value :=
  match s.node.value? with
  | some v => pure (.lit v)
  | none =>
    match s.node.tag.op? with
    | some op => operatorValue below s inner? op
    | none => throw (.noDefault s.node.tag)

/-- A leaf from the only computed argument. -/
def makeLeaf (values : List Value) : Outcome Value :=
  match values with
  | [v] =>
    match v.literal? with
    | some l => .ok (.node (.leaf l))
    | none => .error (.typeMismatch Op.terminal.name v.describe)
  | _ => .error (.arityMismatch Op.terminal.name 1 values.length)

/-- A leaf or a node from computed arguments. -/
def makeTree (tag : Tag) (values : List Value) : Outcome Value := do
  if tag.isTerminal then makeLeaf values
  else return .node (← Tree.make tag (← values.mapM Value.toTree))

/-- Running an action, one step. -/
def applyStep (lib : Library m) (whenDefault : WhenDefault) (s : Site) (a : Action) :
    m Value := do
  match a with
  | .constant v => return v
  | .arg .this => return .node s.node
  | .arg .state => return s.state
  | .arg .data => return s.data
  | .child i => return .node (← Outcome.lift (s.node.child i))
  | .value =>
    match s.node.value? with
    | some v => return .lit v
    | none => throw (.notTerminal s.node.tag s.node.arity)
  | .passThrough => return .node (← copy below s.node)
  | .call function args => callStep below lib s function args
  | .when pattern inner? =>
    if ← below.accepts s.root? s.node pattern then
      match inner?, whenDefault with
      | some inner, _ => below.apply s inner
      | none, .pattern => below.transform s pattern
      | none, .passThrough => return .node (← copy below s.node)
    else throw (.whenPrecondition s.node.tag s.node.arity)
  | .algorithm g => below.transform { s with root? := some g } g
  | .leaf name => lib.leaf name s.node s.state s.data
  | .invoke action target state? data? =>
    let t ← Outcome.lift (← below.apply s target).toTree
    let state ← match state? with
      | some b => below.apply s b
      | none => pure s.state
    let data ← match data? with
      | some b => below.apply s b
      | none => pure s.data
    below.apply { s with node := t, state, data } action
  | .fold start step reverse =>
    let v ← below.apply s start
    let children := if reverse then s.node.children.reverse else s.node.children
    children.foldlM (fun acc c => below.apply { s with node := c, state := acc } step) v
  | .make tag args => Outcome.lift (makeTree tag (← args.mapM (below.apply s)))
  | .evaluate inner? => below.evaluate s inner?
  | .recurse => below.transform s (← root s.root?)

end Steps

/-- The level that can do nothing, as the limit is reached. -/
def exhausted (limit : Nat) : Level m where
  accepts _ _ _ := throw (.depthExceeded limit)
  apply _ _ := throw (.depthExceeded limit)
  transform _ _ := throw (.depthExceeded limit)
  rebuild _ := throw (.depthExceeded limit)
  evaluate _ _ := throw (.depthExceeded limit)

/-- The level that makes one step and leaves the rest to the level below. -/
def above (lib : Library m) (whenDefault : WhenDefault) (below : Unit → Level m) : Level m where
  accepts root? t g := acceptsStep (below ()) root? t g
  apply s a := applyStep (below ()) lib whenDefault s a
  transform s g := transformStep (below ()) lib s g
  rebuild t := rebuildStep (below ()) t
  evaluate s inner? := evaluateStep (below ()) s inner?

end Level

end TreeGrammar
