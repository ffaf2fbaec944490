import TreeGrammar.Proofs.Engine.Evaluation
import TreeGrammar.Proofs.Engine.Meaning
import TreeGrammar.Proofs.Tree.WellFormed

/-! # Folding — sums of literals computed in place

    A grammar that rewrites trees: a sum of two leaves becomes the leaf of its value, any
    other leaf stays, and any other node is built anew from its folded children.
    `Tree.folded` is what becomes of a tree.  It means the same, since an operator cannot
    tell an operand from another of the same meaning, whether it looks at it or not.

    The run is followed backwards from its value.  A run that has one has gone through
    the whole tree, so the limit that was enough for it is enough to evaluate both. -/

namespace TreeGrammar

open Outcome (CutAt)

namespace Folding

/-- A sum of two leaves becomes the leaf of its value. -/
def sum : Case :=
  (Grammar.node (some (.builtin .plus)) [.terminal none, .terminal none]).runs
    (.make (.builtin .terminal) [.evaluate none])

/-- A leaf stays as it is. -/
def leaf : Case :=
  (Grammar.terminal none).runs (.arg .this)

/-- A node is built anew from its folded children. -/
def node : Case :=
  (Grammar.vararg none [] .recurse).itself

end Folding

/-- The grammar that folds sums. -/
def Grammar.folding : Grammar :=
  .switch [Folding.sum, Folding.leaf, Folding.node]

namespace Tree

/-- The value of a sum of two leaves, if it has one. -/
def sum? : Tag → List Tree → Option Literal
  | .builtin .plus, [leaf a, leaf b] => (Builtin.arithmetic .plus a b).toOption
  | _, _ => none

mutual
/-- The tree with each sum of two leaves replaced by its value; one that has none stays. -/
def folded : Tree → Tree
  | leaf v => leaf v
  | node tag cs =>
    match sum? tag cs with
    | some l => leaf l
    | none => node tag (foldedAll cs)
/-- The trees of a list, each with its sums replaced. -/
def foldedAll : List Tree → List Tree
  | [] => []
  | c :: cs => c.folded :: foldedAll cs
end

variable {tag : Tag} {cs : List Tree} {t : Tree}

/-- Only sums of two literals are folded. -/
theorem sum?_eq_none (h : ∀ a b, node tag cs ≠ node (.builtin .plus) [leaf a, leaf b]) :
    sum? tag cs = none := by
  unfold sum?
  split
  · exact absurd rfl (h _ _)
  · rfl

theorem foldedAll_eq (cs : List Tree) : foldedAll cs = cs.map folded := by
  induction cs with
  | nil => rfl
  | cons c cs ih => exact congrArg (c.folded :: ·) ih

/-- A sum of two literals is folded to a literal. -/
theorem folded_of_sum? {l : Literal} (h : sum? tag cs = some l) :
    (node tag cs).folded = leaf l := by
  rw [folded, h]

/-- Any other node keeps its tag, and its children are folded. -/
theorem folded_of_no_sum (h : sum? tag cs = none) :
    (node tag cs).folded = node tag (cs.map folded) := by
  rw [folded, h, foldedAll_eq]

/-- What relates leaves to themselves, nodes to their sums, and nodes whose children it relates,
relates every tree to the folded one. -/
theorem folded_induction {P : Tree → Tree → Prop} (leaf : ∀ v, P (leaf v) (leaf v))
    (sum : ∀ tag cs l, sum? tag cs = some l → P (node tag cs) (.leaf l))
    (node : ∀ tag cs, (∀ c ∈ cs, P c c.folded) → P (node tag cs) (.node tag (cs.map folded)))
    (t : Tree) : P t t.folded := by
  induction t using induction_on_children with
  | step t ih =>
      cases t with
      | leaf v => exact leaf v
      | node tag cs =>
          cases hsum : sum? tag cs with
          | some l =>
              rw [folded_of_sum? hsum]
              exact sum tag cs l hsum
          | none =>
              rw [folded_of_no_sum hsum]
              exact node tag cs ih

/-! ## What folding keeps -/

/-- The meaning of a sum of two leaves is the sum. -/
theorem meaning_sum (a b : Literal) : (node (.builtin .plus) [leaf a, leaf b]).meaning
    = Value.lit <$> Builtin.arithmetic .plus a b :=
  rfl

/-- A sum of two literals means the literal it is folded to. -/
theorem meaning_of_sum? {l : Literal} (h : sum? tag cs = some l) :
    (node tag cs).meaning = .ok (.lit l) := by
  unfold sum? at h
  split at h
  · next a b =>
      rw [meaning_sum]
      match hsum : Builtin.arithmetic .plus a b with
      | .error e =>
          rw [hsum] at h
          cases h
      | .ok l' =>
          rw [hsum] at h
          cases h
          rfl
  · cases h

/-- The folded tree means what the tree means. -/
theorem meaning_folded (t : Tree) : t.folded.meaning = t.meaning := by
  refine folded_induction (P := fun t t' => t'.meaning = t.meaning) ?leaf ?sum ?node t
  case leaf =>
    intro v
    rfl
  case sum =>
    intro tag cs l hsum
    rw [meaning_of_sum? hsum, meaning]
  case node =>
    intro tag cs ih
    cases tag with
    | user name => rfl
    | builtin op =>
        rw [meaning_node, meaning_node, List.map_map]
        exact congrArg _ (List.map_congr_left ih)

theorem sizes_map_le {f : Tree → Tree} (h : ∀ c ∈ cs, (f c).size ≤ c.size) :
    sizes (cs.map f) ≤ sizes cs := by
  induction cs with
  | nil => exact Nat.le_refl 0
  | cons c cs ih =>
      obtain ⟨hc, hcs⟩ := List.forall_mem_cons.mp h
      exact Nat.add_le_add hc (ih hcs)

/-- Folding makes no tree larger. -/
theorem size_folded_le (t : Tree) : t.folded.size ≤ t.size := by
  refine folded_induction (P := fun t t' => t'.size ≤ t.size) ?leaf ?sum ?node t
  case leaf =>
    intro v
    exact Nat.le_refl 1
  case sum =>
    intro tag cs l hsum
    exact Nat.le_add_right 1 (sizes cs)
  case node =>
    intro tag cs ih
    exact Nat.add_le_add_left (sizes_map_le ih) 1

/-- Folding makes no tree deeper. -/
theorem depth_folded_le (t : Tree) : t.folded.depth ≤ t.depth := by
  refine folded_induction (P := fun t t' => t'.depth ≤ t.depth) ?leaf ?sum ?node t
  case leaf =>
    intro v
    exact Nat.le_refl 1
  case sum =>
    intro tag cs l hsum
    exact Nat.le_add_right 1 (depths cs)
  case node =>
    intro tag cs ih
    refine Nat.add_le_add_left (depths_le_of (List.forall_mem_map.mpr fun c hc => ?_)) 1
    exact Nat.le_trans (ih c hc) (depth_le_depths hc)

/-- Folding builds no node of another shape. -/
theorem WellFormed.folded (ht : t.WellFormed) : t.folded.WellFormed := by
  refine folded_induction (P := fun t t' => t.WellFormed → t'.WellFormed) ?leaf ?sum ?node t ht
  case leaf =>
    intro v hv
    exact hv
  case sum =>
    intro tag cs l hsum ht
    exact wellFormed_leaf l
  case node =>
    intro tag cs ih ht
    obtain ⟨hshape, hcs⟩ := wellFormed_node_iff.mp ht
    refine wellFormed_node_iff.mpr ⟨?_, List.forall_mem_map.mpr fun c hc => ih c hc (hcs c hc)⟩
    rwa [List.length_map]

end Tree

/-- Children whose runs have no other values than these make the node over these. -/
theorem Level.of_rebuildBy {l : Level Outcome} {s : Site} {pairs : List (Tree × Grammar)}
    {f : Tree → Tree} {v : Value} (hnode : s.node.isTerminal = false)
    (hchild : ∀ p ∈ pairs, ∀ w, l.transform { s with node := p.1, state := .node s.node } p.2
      = .ok w → w = .node (f p.1)) (h : rebuildBy l s pairs = .ok v) :
    v = .node (.node s.node.tag (pairs.map fun p => f p.1))
      ∧ ∀ p ∈ pairs, l.transform { s with node := p.1, state := .node s.node } p.2
        = .ok (.node (f p.1)) := by
  have hrun : ∀ p ∈ pairs, ∀ c, (do
      Outcome.lift (← l.transform { s with node := p.1, state := .node s.node } p.2).toTree)
        = (.ok c : Outcome Tree) → c = f p.1
          ∧ l.transform { s with node := p.1, state := .node s.node } p.2
            = .ok (.node (f p.1)) := by
    intro p hp c hc
    obtain ⟨w, hw, hc⟩ := Verdict.of_bind_eq_ok hc
    obtain rfl := hchild p hp w hw
    cases hc
    exact ⟨rfl, hw⟩
  rw [rebuildBy, if_neg (Bool.eq_false_iff.mp hnode)] at h
  obtain ⟨cs, hcs, h⟩ := Verdict.of_bind_eq_ok h
  obtain ⟨rfl, hall⟩ := Verdict.of_mapM_eq_ok hcs fun p hp c hc => (hrun p hp c hc).1
  obtain ⟨t, ht, h⟩ := Verdict.of_bind_eq_ok h
  rw [Outcome.lift_eq] at ht
  obtain ⟨-, rfl⟩ := Tree.make_eq_ok_iff.mp ht
  cases h
  exact ⟨rfl, fun p hp => (hrun p hp _ (hall p hp)).2⟩

namespace Folding

variable {again : Tree → Bool} {t : Tree} {c : Case}

/-! ## Which case is run -/

/-- The case of leaves accepts all leaves. -/
theorem reading_leaf : leaf.pattern.readingIn again t = true ↔ ∃ v, t = .leaf v := by
  cases t with
  | leaf v => exact ⟨fun _ => ⟨v, rfl⟩, fun _ => rfl⟩
  | node tag cs => exact ⟨nofun, nofun⟩

/-- The case of sums accepts the sums of two literals. -/
theorem reading_sum : sum.pattern.readingIn again t = true
    ↔ ∃ a b, t = .node (.builtin .plus) [.leaf a, .leaf b] := by
  refine Grammar.readingIn_node_pair.trans ?_
  constructor
  · rintro ⟨x, y, rfl, hx, hy⟩
    obtain ⟨a, rfl⟩ := reading_leaf.mp hx
    obtain ⟨b, rfl⟩ := reading_leaf.mp hy
    exact ⟨a, b, rfl⟩
  · rintro ⟨a, b, rfl⟩
    exact ⟨_, _, rfl, rfl, rfl⟩

/-- The case that is found first is that of the tree's shape. -/
theorem shape_of_find? {c : Case}
    (h : [sum, leaf, node].find? (fun c => c.pattern.readingIn again t) = some c) :
    (c = sum ∧ ∃ a b, t = .node (.builtin .plus) [.leaf a, .leaf b])
      ∨ (c = leaf ∧ ∃ v, t = .leaf v)
      ∨ c = node ∧ ∃ tag cs, t = .node tag cs ∧ t.isTerminal = false
        ∧ Tree.sum? tag cs = none := by
  have hread := List.find?_some h
  have hmem : c = sum ∨ c = leaf ∨ c = node := by
    simpa using List.mem_of_find?_eq_some h
  -- any later case is run only if the sums are not
  have hfirst : c ≠ sum → sum.pattern.readingIn again t ≠ true := by
    intro hne hsum
    simp only [List.find?_cons, hsum, Option.some.injEq] at h
    exact hne h.symm
  obtain rfl | rfl | rfl := hmem
  · exact Or.inl ⟨rfl, reading_sum.mp hread⟩
  · exact Or.inr (Or.inl ⟨rfl, reading_leaf.mp hread⟩)
  · cases t with
    | leaf v => cases hread
    | node tag cs =>
        obtain ⟨hhead, -⟩ := Bool.and_eq_true_iff.mp hread
        obtain ⟨hcomposite, -⟩ := Bool.and_eq_true_iff.mp hhead
        refine Or.inr (Or.inr ⟨rfl, tag, cs, rfl, Bool.not_eq_true' _ ▸ hcomposite, ?_⟩)
        refine Tree.sum?_eq_none fun a b heq => ?_
        exact hfirst nofun (reading_sum.mpr ⟨a, b, heq⟩)

/-! ## What a run has gone through -/

variable {e : Engine Outcome} {state data v : Value} {n : Nat}

/-- With enough steps the body of the first case makes a leaf of the sum, or fails as it does. -/
theorem apply_sum (root? : Option Grammar) (a b : Literal) :
    (e.level (n + 4)).apply ⟨root?, .node (.builtin .plus) [.leaf a, .leaf b], state, data⟩
        (.make (.builtin .terminal) [.evaluate none])
      = (fun l => Value.node (.leaf l)) <$> Builtin.arithmetic .plus a b := by
  have hvalue : (e.level (n + 3)).apply
      ⟨root?, .node (.builtin .plus) [.leaf a, .leaf b], state, data⟩ (.evaluate none)
      = Value.lit <$> Builtin.arithmetic .plus a b :=
    e.evaluate_eq_meaning (n := n + 2)
      (s := ⟨root?, .node (.builtin .plus) [.leaf a, .leaf b], state, data⟩)
      (Nat.le_add_left 2 n)
  show [Action.evaluate none].mapM ((e.level (n + 3)).apply _) >>= _ = _
  rw [List.mapM_cons, hvalue]
  cases Builtin.arithmetic .plus a b <;> rfl

/-- What the case of sums computes is the folded sum. -/
theorem of_caseStep_sum {a b : Literal} (h : Level.caseStep (e.level n) e.library
      ⟨some .folding, .node (.builtin .plus) [.leaf a, .leaf b], state, data⟩ sum = .ok v) :
    v = .node (Tree.node (.builtin .plus) [.leaf a, .leaf b]).folded ∧ 2 ≤ n := by
  match n, h with
  | 0, h => cases h
  | 1, h => cases h
  | n + 2, h =>
      refine ⟨?_, Nat.le_add_left 2 n⟩
      have hmore : Level.Related (CutAt e.config.maxDepth) (e.level (n + 2)) (e.level (n + 4)) :=
        Engine.related_cutAt (Nat.le_add_right _ 2)
      have hvalue := (hmore.apply _ _).eq_ok h
      rw [apply_sum] at hvalue
      match hsum : Builtin.arithmetic .plus a b with
      | .error err =>
          rw [hsum] at hvalue
          cases hvalue
      | .ok l =>
          rw [hsum] at hvalue
          have hfound : Tree.sum? (.builtin .plus) [.leaf a, .leaf b] = some l := by
            rw [Tree.sum?, hsum]
            rfl
          rw [Tree.folded_of_sum? hfound]
          exact (Except.ok.inj hvalue).symm

/-- What recursion computes was computed by the whole grammar, a step deeper. -/
theorem of_transform_recurse {g : Grammar}
    (h : (e.level n).transform ⟨some g, t, state, data⟩ .recurse = .ok v) :
    ∃ m, n = m + 1 ∧ (e.level m).transform ⟨some g, t, state, data⟩ g = .ok v := by
  cases n with
  | zero => cases h
  | succ m => exact ⟨m, rfl, h⟩

/-- The children are run from the grammar again, with fewer steps left. -/
theorem of_caseStep_node {tag : Tag} {cs : List Tree}
    (hnode : (Tree.node tag cs).isTerminal = false) (hsum : Tree.sum? tag cs = none)
    (hchild : ∀ c ∈ cs, ∀ {state v : Value} {n : Nat}, (e.level n).transform
      ⟨some .folding, c, state, data⟩ .folding = .ok v → v = .node c.folded ∧ c.depth < n)
    (h : Level.caseStep (e.level n) e.library ⟨some .folding, .node tag cs, state, data⟩ node
      = .ok v) : v = .node (Tree.node tag cs).folded ∧ (Tree.node tag cs).depth ≤ n := by
  cases n with
  | zero => cases h
  | succ n =>
      change (_ >>= fun _ => Level.rebuildBy (e.level n) ⟨some .folding, .node tag cs, state, data⟩
        (cs.zipIdx.map fun p => (p.1, .recurse))) = .ok v at h
      obtain ⟨-, -, h⟩ := Verdict.of_bind_eq_ok h
      have hagain : ∀ c ∈ cs, ∀ {state w : Value},
          (e.level n).transform ⟨some .folding, c, state, data⟩ .recurse = .ok w →
            w = .node c.folded ∧ c.depth < n := by
        intro c hc state w hw
        obtain ⟨m, rfl, hw⟩ := of_transform_recurse hw
        obtain ⟨rfl, hm⟩ := hchild c hc hw
        exact ⟨rfl, Nat.lt_succ_of_lt hm⟩
      have hfst : cs.zipIdx.map Prod.fst = cs := List.zipIdx_map_fst 0 cs
      obtain ⟨rfl, hruns⟩ := Level.of_rebuildBy (f := Tree.folded) hnode (by
        intro p hp w hw
        obtain ⟨q, hq, rfl⟩ := List.mem_map.mp hp
        exact (hagain q.1 (List.fst_mem_of_mem_zipIdx hq) hw).1) h
      have hdepths : Tree.depths cs ≤ n := by
        refine Tree.depths_le_of fun c hc => ?_
        rw [← hfst] at hc
        obtain ⟨q, hq, rfl⟩ := List.mem_map.mp hc
        have hrun := hruns (q.1, .recurse) (List.mem_map_of_mem hq)
        exact Nat.le_of_lt (hagain q.1 (List.fst_mem_of_mem_zipIdx hq) hrun).2
      have hchildren : (cs.zipIdx.map fun p => (p.1, Grammar.recurse)).map (fun p => p.1.folded)
          = cs.map Tree.folded := by
        rw [← congrArg (List.map Tree.folded) hfst, List.map_map, List.map_map]
        rfl
      rw [hchildren, Tree.folded_of_no_sum hsum]
      refine ⟨rfl, ?_⟩
      show 1 + Tree.depths cs ≤ n + 1
      omega

/-- A run of the folding grammar that has a value has gone through the whole tree, and its value is
the folded tree. -/
theorem of_transform_folding
    (h : (e.level n).transform ⟨some .folding, t, state, data⟩ .folding = .ok v) :
    v = .node t.folded ∧ t.depth < n := by
  induction t using Tree.induction_on_children generalizing n state v with
  | step t ih =>
      obtain ⟨m, c, rfl, hfind, hbody⟩ := e.of_transform_switch rfl rfl h
      obtain ⟨rfl, a, b, rfl⟩ | ⟨rfl, l, rfl⟩ | ⟨rfl, tag, cs, rfl, hnode, hsum⟩ :=
        shape_of_find? hfind
      · obtain ⟨hv, hm⟩ := of_caseStep_sum hbody
        exact ⟨hv, Nat.lt_succ_of_le hm⟩
      · cases m with
        | zero => cases hbody
        | succ m =>
            cases hbody
            exact ⟨rfl, Nat.le_add_left 2 m⟩
      · obtain ⟨hv, hm⟩ := of_caseStep_node hnode hsum ih hbody
        exact ⟨hv, Nat.lt_succ_of_le hm⟩

end Folding

namespace Engine

/-- Where folding a well-formed tree gives a tree, that is the one with its sums replaced; it is
well-formed and no larger, and evaluating it has the same outcome. -/
theorem folding_preserves_evaluation (e : Engine Outcome) {t t' : Tree} (ht : t.WellFormed)
    (h : e.transformTree t .folding = .ok t') :
    t' = t.folded ∧ t'.WellFormed ∧ t'.size ≤ t.size ∧ ∀ state data,
      e.apply t' state data (.evaluate none) = e.apply t state data (.evaluate none) := by
  obtain ⟨v, hv, htree⟩ := Verdict.of_bind_eq_ok h
  obtain ⟨rfl, hdepth⟩ := Folding.of_transform_folding hv
  cases htree
  refine ⟨rfl, ht.folded, t.size_folded_le, ?_⟩
  intro state data
  rw [e.apply_evaluate (Nat.lt_of_le_of_lt t.depth_folded_le hdepth), e.apply_evaluate hdepth,
    t.meaning_folded]

/-- Two sums in the branches of a condition, the one that is not taken below a name that has no
meaning. -/
theorem folding_preserves_evaluation_branches :
    (Tree.node (.builtin .ifElse) [.leaf (.bool true), .leaf (.int 3),
        .node (.user "f") [.leaf (.int 7)]]).WellFormed
      ∧ (under (.constant .unit) .pattern 16).apply
          (.node (.builtin .ifElse) [.leaf (.bool true), .leaf (.int 3),
            .node (.user "f") [.leaf (.int 7)]]) .unit .unit (.evaluate none)
        = (under (.constant .unit) .pattern 16).apply
          (.node (.builtin .ifElse) [.leaf (.bool true),
            .node (.builtin .plus) [.leaf (.int 1), .leaf (.int 2)],
            .node (.user "f") [.node (.builtin .plus) [.leaf (.int 3), .leaf (.int 4)]]])
          .unit .unit (.evaluate none) := by
  have hfolded : (under (.constant .unit) .pattern 16).transformTree
      (.node (.builtin .ifElse) [.leaf (.bool true),
        .node (.builtin .plus) [.leaf (.int 1), .leaf (.int 2)],
        .node (.user "f") [.node (.builtin .plus) [.leaf (.int 3), .leaf (.int 4)]]]) .folding
      = .ok (.node (.builtin .ifElse) [.leaf (.bool true), .leaf (.int 3),
        .node (.user "f") [.leaf (.int 7)]]) := rfl
  obtain ⟨-, hformed, -, heval⟩ := folding_preserves_evaluation _ (by decide) hfolded
  exact ⟨hformed, heval .unit .unit⟩

end Engine

end TreeGrammar
