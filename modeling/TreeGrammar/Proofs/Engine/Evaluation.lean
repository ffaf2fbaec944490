import TreeGrammar.Engine
import TreeGrammar.Proofs.Grammar.Reading
import TreeGrammar.Proofs.Verdict

/-! # Evaluation — what a tree of operators means

    A leaf means its literal, and a node what its operator makes of the meanings of its
    children.  `Builtin.lazily` applies an operator to outcomes: three operators look at
    those they need, all others at every one.  With this `Tree.meaning` is a recursion
    on the tree, and the engine computes it with one step for each level of the tree. -/

namespace TreeGrammar

/-- The meaning of an operator at operands that are computed when they are looked at. -/
def Builtin.lazily (op : Op) (operands : List (Outcome Value)) : Outcome Value :=
  let value (i : Nat) : Outcome Value :=
    operands.getD i (.error (.childOutOfRange (.builtin op) operands.length i))
  let truth (i : Nat) : Outcome Bool := do Builtin.truth op (← value i)
  match op with
  | .logicalAnd => do
    if ← truth 0 then return .lit (.bool (← truth 1)) else return .lit (.bool false)
  | .logicalOr => do
    if ← truth 0 then return .lit (.bool true) else return .lit (.bool (← truth 1))
  | .ifElse => do if ← truth 0 then value 1 else value 2
  | _ => do Builtin.apply op (← operands.mapM id)

/-- The operators that look at some of their operands only if they need them. -/
def Op.isLazy : Op → Bool
  | .logicalAnd | .logicalOr | .ifElse => true
  | _ => false

/-- All other operators have their meaning at the values of all operands. -/
theorem Builtin.lazily_eq_apply {op : Op} (hop : op.isLazy = false)
    (operands : List (Outcome Value)) :
    lazily op operands = (do Builtin.apply op (← operands.mapM id)) := by
  cases op <;> first | rfl | cases hop

mutual
/-- What a tree means: the literal of a leaf, and else its operator at the meanings of the
children. -/
def Tree.meaning : Tree → Outcome Value
  | .leaf v => .ok (.lit v)
  | .node (.builtin op) cs => Builtin.lazily op (Tree.meanings cs)
  | .node (.user name) _ => .error (.noDefault (.user name))
/-- The meanings of the trees of a list. -/
def Tree.meanings : List Tree → List (Outcome Value)
  | [] => []
  | c :: cs => c.meaning :: Tree.meanings cs
end

theorem Tree.meanings_eq (cs : List Tree) : meanings cs = cs.map meaning := by
  induction cs with
  | nil => rfl
  | cons c cs ih => exact congrArg (c.meaning :: ·) ih

/-- The meaning of an operation is its operator on the meanings of the children. -/
theorem Tree.meaning_node (op : Op) (cs : List Tree) :
    (node (.builtin op) cs).meaning = Builtin.lazily op (cs.map meaning) := by
  rw [meaning, meanings_eq]

namespace Level

variable {below : Level Outcome} {s : Site} {inner? : Option Action} {f : Tree → Outcome Value}

/-- The value of a node is that of its operator at the values of its children. -/
theorem operatorValue_eq_lazily {op : Op} (htag : s.node.tag = .builtin op)
    (hchild : ∀ c ∈ s.node.children, childValue below s inner? c = f c) :
    operatorValue below s inner? op = Builtin.lazily op (s.node.children.map f) := by
  have hvalue (i : Nat) :
      (Outcome.lift (s.node.child i) : Outcome Tree) >>= childValue below s inner?
        = (s.node.children.map f).getD i
          (.error (.childOutOfRange (.builtin op) (s.node.children.map f).length i)) := by
    rw [Outcome.lift_eq, Tree.child, Tree.child?, htag, Tree.arity,
      List.getD_eq_getElem?_getD, List.getElem?_map, List.length_map]
    cases hi : s.node.children[i]? with
    | none => rfl
    | some c => exact hchild c (List.mem_of_getElem? hi)
  have hall : s.node.children.mapM (childValue below s inner?)
      = (s.node.children.map f).mapM id := by
    rw [List.mapM_map]
    exact Verdict.mapM_congr hchild
  unfold operatorValue Builtin.lazily
  extract_lets value truth value' truth'
  have hsame : value = value' := funext hvalue
  have htruth : truth = truth' := by
    funext i
    show value i >>= _ = value' i >>= _
    rw [hsame]
    exact bind_congr fun v => Outcome.lift_eq _
  cases op <;> simp only [hsame, htruth, hall, Outcome.lift_eq]

/-- One step of evaluating is one step of the recursion. -/
theorem evaluateStep_eq_meaning
    (hchild : ∀ c ∈ s.node.children, below.evaluate { s with node := c } none = c.meaning) :
    evaluateStep below s none = s.node.meaning := by
  obtain ⟨root?, node, state, data⟩ := s
  cases node with
  | leaf v => rfl
  | node tag cs =>
      cases tag with
      | user name => rfl
      | builtin op =>
          rw [Tree.meaning_node]
          exact operatorValue_eq_lazily rfl hchild

end Level

namespace Engine

variable (e : Engine Outcome)

/-- One step for each level of the tree is enough to compute its meaning. -/
theorem evaluate_eq_meaning {n : Nat} {s : Site} (hdepth : s.node.depth ≤ n) :
    (e.level n).evaluate s none = s.node.meaning := by
  induction n generalizing s with
  | zero => exact absurd s.node.depth_pos (Nat.not_lt.mpr hdepth)
  | succ n ih =>
      refine Level.evaluateStep_eq_meaning fun c hc => ih ?_
      exact Nat.le_of_lt_succ (Nat.lt_of_lt_of_le (Tree.depth_lt_of_mem_children hc) hdepth)

/-- Evaluating as an action takes one more step. -/
theorem apply_evaluate {t : Tree} (hdepth : t.depth < e.config.maxDepth) (state data : Value) :
    e.apply t state data (.evaluate none) = t.meaning := by
  obtain ⟨n, hn⟩ : ∃ n, e.config.maxDepth = n + 1 := ⟨e.config.maxDepth - 1, by omega⟩
  rw [Engine.apply, Engine.top, hn]
  exact e.evaluate_eq_meaning (s := ⟨none, t, state, data⟩) (by show t.depth ≤ n; omega)

end Engine

end TreeGrammar
