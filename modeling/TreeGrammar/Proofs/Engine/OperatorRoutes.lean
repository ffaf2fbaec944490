import TreeGrammar.Proofs.Engine.Calculator
import TreeGrammar.Proofs.Engine.Laziness
import TreeGrammar.Proofs.Operator.Coercion

/-! # Routes to an operator — evaluating a node, calling a function, applying to literals

    The meaning of an operator at literals is reached by evaluating a node over leaves,
    by evaluating it with an action for the children, by calling the operator's function
    on the children, and by applying the operator itself.  The operands are literals on
    some of the routes and leaves on others, and evaluation leaves out the operands that
    it does not need.  All routes end at one literal or at one error. -/

namespace TreeGrammar

variable {op : Op} {ls : List Literal}

/-- A node over leaves that hold these literals. -/
def Tree.applied (op : Op) (ls : List Literal) : Tree :=
  .node (.builtin op) (ls.map .leaf)

/-- The action that calls the function of an operator on the first children of a node. -/
def Action.callOnChildren (op : Op) (identity count : Nat) : Action :=
  .call (.constant (.func (.ofOp op identity))) ((List.range count).map .child)

/-- An operator on literals is at most two deep. -/
theorem Tree.depth_applied_le (op : Op) (ls : List Literal) : (applied op ls).depth ≤ 2 := by
  show 1 + depths (ls.map leaf) ≤ 1 + 1
  exact Nat.add_le_add_left (depths_le_of (List.forall_mem_map.mpr fun _ _ => Nat.le_refl 1)) 1

theorem Tree.WellFormed.ne_terminal (h : (Tree.applied op ls).WellFormed) : op ≠ .terminal := by
  rintro rfl
  cases (wellFormed_node_iff.mp h).1

/-- An operator stands on as many literals as it takes. -/
theorem Tree.WellFormed.length_literals (h : (Tree.applied op ls).WellFormed) {n : Nat}
    (hn : op.arity? = some n) : ls.length = n := by
  have hlength : (ls.map Tree.leaf).length = n := h.length_eq hn
  rwa [List.length_map] at hlength

namespace Builtin

/-- With leaves in the place of all literals the operator says the same. -/
theorem read_apply_leaves (op : Op) (ls : List Literal) :
    (apply op (ls.map fun l => .node (.leaf l))).read = (apply op (ls.map .lit)).read := by
  refine (read_apply_promoted ?_).symm
  rw [List.forall₂_map_left_iff, List.forall₂_map_right_iff]
  exact List.forall₂_same.mpr fun l _ => .leaf l

/-- At as many literals as it takes an operator gives a literal or an error. -/
theorem exists_read_apply (h : (Tree.applied op ls).WellFormed) :
    ∃ r : Outcome Literal, (apply op (ls.map .lit)).read = some <$> r := by
  have hgives : (apply op (ls.map .lit)).GivesLiteral := by
    rw [apply_eq_applyCounted h.ne_terminal fun n hn => by
      rw [List.length_map, h.length_literals hn]]
    refine givesLiteral_applyCounted (List.forall_mem_map.mpr fun l _ => ⟨l, rfl⟩)
  rcases hgives with ⟨l, hl⟩ | ⟨err, herr, -⟩
  · exact ⟨.ok l, congrArg Outcome.read hl⟩
  · exact ⟨.error err, congrArg Outcome.read herr⟩

end Builtin

namespace Engine

variable (e : Engine Outcome) (state data : Value)

/-- What a lazy operator gives at leaves is what it gives at their literals. -/
theorem lazily_leaves (h : (Tree.applied op ls).WellFormed) {f : Tree → Outcome Value}
    (hf : ∀ l, f (.leaf l) = .ok (.lit l)) :
    Builtin.lazily op ((Tree.applied op ls).children.map f) = Builtin.apply op (ls.map .lit) := by
  have hvalues : (Tree.applied op ls).children.map f = (ls.map Value.lit).map .ok := by
    show (ls.map Tree.leaf).map f = _
    rw [List.map_map, List.map_map]
    exact List.map_congr_left fun l _ => hf l
  rw [hvalues]
  refine Builtin.lazily_values (List.forall_mem_map.mpr fun l _ => ⟨l, rfl⟩) fun n hn => ?_
  rw [List.length_map, h.length_literals hn]

/-- Evaluating the node is one route. -/
theorem apply_evaluate_applied (h : (Tree.applied op ls).WellFormed)
    (hlimit : 3 ≤ e.config.maxDepth) :
    e.apply (.applied op ls) state data (.evaluate none) = Builtin.apply op (ls.map .lit) := by
  have hdepth := Tree.depth_applied_le op ls
  rw [e.apply_evaluate (by omega), ← lazily_leaves (f := Tree.meaning) h fun _ => rfl]
  exact Tree.meaning_node op _

/-- Evaluating it with its children's values is another. -/
theorem apply_evaluateValue_applied (h : (Tree.applied op ls).WellFormed)
    (hlimit : 3 ≤ e.config.maxDepth) :
    e.apply (.applied op ls) state data (.evaluate (some .value))
      = Builtin.apply op (ls.map .lit) := by
  obtain ⟨n, hn⟩ : ∃ n, e.config.maxDepth = n + 3 := ⟨e.config.maxDepth - 3, by omega⟩
  rw [Engine.apply, Engine.top, hn]
  show Level.operatorValue (e.level (n + 1)) ⟨none, .applied op ls, state, data⟩ (some .value) op
    = _
  rw [Level.operatorValue_eq_lazily rfl fun _ _ => rfl]
  exact lazily_leaves h fun l => rfl

/-- The arguments of the call are the leaves. -/
theorem mapM_child_applied (n : Nat) (root? : Option Grammar) :
    ((List.range ls.length).map Action.child).mapM
        ((e.level (n + 1)).apply ⟨root?, .applied op ls, state, data⟩)
      = .ok (ls.map fun l => .node (.leaf l)) := by
  have hchild : ∀ i ∈ List.range ls.length,
      ((e.level (n + 1)).apply ⟨root?, .applied op ls, state, data⟩ ∘ Action.child) i
        = .ok (.node (.leaf (ls.getD i .unit))) := by
    intro i hi
    have hleaf : (Tree.applied op ls).child? i = some (.leaf (ls.getD i .unit)) := by
      show (ls.map Tree.leaf)[i]? = _
      rw [List.getElem?_map, List.getD_eq_getElem?_getD,
        List.getElem?_eq_getElem (List.mem_range.mp hi)]
      rfl
    show (do return Value.node (← Outcome.lift ((Tree.applied op ls).child i))) = _
    rw [Tree.child, hleaf]
    rfl
  rw [List.mapM_map, Verdict.mapM_eq_ok hchild]
  refine congrArg Except.ok (List.ext_getElem ?_ fun i hi hi' => ?_)
  · rw [List.length_map, List.length_map, List.length_range]
  · rw [List.length_map] at hi'
    rw [List.getElem_map, List.getElem_map, List.getElem_range, List.getD_eq_getElem?_getD,
      List.getElem?_eq_getElem hi', Option.getD_some]

/-- Calling the operator on the children is a third. -/
theorem apply_callOnChildren_applied (identity : Nat) (hlimit : 3 ≤ e.config.maxDepth) :
    e.apply (.applied op ls) state data (.callOnChildren op identity ls.length)
      = Builtin.apply op (ls.map fun l => .node (.leaf l)) := by
  obtain ⟨n, hn⟩ : ∃ n, e.config.maxDepth = n + 3 := ⟨e.config.maxDepth - 3, by omega⟩
  rw [Engine.apply, Engine.top, hn]
  show ((List.range ls.length).map Action.child).mapM ((e.level (n + 2)).apply _) >>= _ = _
  rw [mapM_child_applied]
  exact Func.invoke_ofOp e.library op identity _

/-- On all four routes an operator at literals gives the same literal or the same error, the
operands being literals on some and leaves on others.  At any operands an operator is indifferent
to which of the two they are. -/
theorem operator_routes (hnode : (Tree.applied op ls).WellFormed) (hlimit : 3 ≤ e.config.maxDepth)
    (identity : Nat) :
    (∃ r : Outcome Literal, ∀ o ∈ [e.apply (.applied op ls) state data (.evaluate none),
        e.apply (.applied op ls) state data (.evaluate (some .value)),
        e.apply (.applied op ls) state data (.callOnChildren op identity ls.length),
        Builtin.apply op (ls.map .lit)], o.read = some <$> r)
      ∧ ∀ op' args args', List.Forall₂ Value.Promoted args args' →
        (Builtin.apply op' args).read = (Builtin.apply op' args').read := by
  refine ⟨?_, fun op' args args' h => Builtin.read_apply_promoted h⟩
  obtain ⟨r, hr⟩ := Builtin.exists_read_apply hnode
  refine ⟨r, ?_⟩
  rw [e.apply_evaluate_applied state data hnode hlimit,
    e.apply_evaluateValue_applied state data hnode hlimit,
    e.apply_callOnChildren_applied state data identity hlimit]
  intro o ho
  simp only [List.mem_cons, List.not_mem_nil, or_false] at ho
  rcases ho with rfl | rfl | rfl | rfl
  · exact hr
  · exact hr
  · exact (Builtin.read_apply_leaves op ls).trans hr
  · exact hr

/-- Zero and a string: evaluation leaves the string out, and the call hands over both leaves; a
comma hands on what is no literal. -/
theorem operator_routes_and :
    (Tree.applied .logicalAnd [.int 0, .str "a"]).WellFormed ∧ 3 ≤ 3
      ∧ ((under (.constant .unit) .pattern 3).apply (.applied .logicalAnd [.int 0, .str "a"])
        .unit .unit (.callOnChildren .logicalAnd 7 2)).read = .ok (some (.bool false))
      ∧ (Builtin.apply .comma [.lit .unit, .node (.node (.user "f") [.leaf .unit])]).read
        = (Builtin.apply .comma [.node (.leaf .unit), .node (.node (.user "f") [.leaf .unit])]).read
      := by
  have hnode : (Tree.applied .logicalAnd [.int 0, .str "a"]).WellFormed := by decide
  obtain ⟨⟨r, hr⟩, hpromoted⟩ := operator_routes (under (.constant .unit) .pattern 3) .unit .unit
    hnode (by decide) 7
  have happly : (Builtin.apply .logicalAnd [.lit (.int 0), .lit (.str "a")]).read
      = .ok (some (.bool false)) := rfl
  refine ⟨hnode, by decide, ?_, hpromoted _ _ _ (.cons (.leaf _) (.cons (.same _) .nil))⟩
  rw [hr _ (by simp), ← happly]
  exact (hr _ (by simp)).symm

end Engine

end TreeGrammar
