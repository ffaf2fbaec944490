import TreeGrammar.Engine
import TreeGrammar.Proofs.Grammar.Inspection
import TreeGrammar.Proofs.Postcondition
import TreeGrammar.Proofs.Read.NormalForm
import TreeGrammar.Stock

/-! # Well-formed values — the engine builds no other trees

    Trees come into a run with the node, the state and the datum, as constants of the
    action or of the grammar, and from the user's functions and leaves.  If all of these
    are well-formed, so is every tree that a run gives: it is one of them, a child of
    one, a leaf, or a node that `Tree.make` has checked. -/

namespace TreeGrammar

/-- Whether the value is no tree or a well-formed one. -/
def Value.isWellFormed : Value → Bool
  | node t => t.isWellFormed
  | lit _ | func _ => true

/-- The value is no tree, or a well-formed one. -/
def Value.WellFormed (v : Value) : Prop :=
  v.isWellFormed = true

instance (v : Value) : Decidable v.WellFormed :=
  inferInstanceAs (Decidable (v.isWellFormed = true))

/-- Every tree among the constants is well-formed, also in nested algorithms. -/
def Inspection.wellFormed : Inspection where
  pattern _ := true
  action a := match a with
    | .constant v => v.isWellFormed
    | _ => true
  algorithms := true

/-- Every tree among the constants of the grammar is well-formed. -/
def Grammar.WellFormed (g : Grammar) : Prop :=
  g.passes .wellFormed = true

/-- Every tree among the constants of the action is well-formed. -/
def Action.WellFormed (a : Action) : Prop :=
  a.passes .wellFormed = true

instance (g : Grammar) : Decidable g.WellFormed :=
  inferInstanceAs (Decidable (g.passes .wellFormed = true))

instance (a : Action) : Decidable a.WellFormed :=
  inferInstanceAs (Decidable (a.passes .wellFormed = true))

/-- All that a step works with is well-formed. -/
structure Site.WellFormed (s : Site) : Prop where
  root : ∀ g ∈ s.root?, g.WellFormed
  node : s.node.WellFormed
  state : s.state.WellFormed
  data : s.data.WellFormed

theorem Value.wellFormed_unit : Value.unit.WellFormed :=
  rfl

/-- A well-formed value gives a well-formed tree. -/
theorem Value.WellFormed.toTree {v : Value} (hv : v.WellFormed) :
    SatisfiesM Tree.WellFormed v.toTree := by
  refine SatisfiesM_Except_eq.mpr fun t ht => ?_
  cases v with
  | lit l =>
      cases ht
      exact Tree.wellFormed_leaf l
  | node t' =>
      cases ht
      exact hv
  | func f => cases ht

/-- A node that can be built over well-formed children is well-formed. -/
theorem Tree.satisfies_make {tag : Tag} {cs : List Tree} (hcs : ∀ c ∈ cs, c.WellFormed) :
    SatisfiesM Tree.WellFormed (Tree.make tag cs) :=
  SatisfiesM_Except_eq.mpr fun _ ht => Tree.wellFormed_of_make ht hcs

/-- The children of a well-formed tree are well-formed. -/
theorem Tree.satisfies_child {t : Tree} (ht : t.WellFormed) (i : Nat) :
    SatisfiesM Tree.WellFormed (t.child i) := by
  refine SatisfiesM_Except_eq.mpr fun c hc => ?_
  rw [Tree.child, Tree.child?] at hc
  cases hi : t.children[i]? with
  | none =>
      rw [hi] at hc
      cases hc
  | some c' =>
      rw [hi] at hc
      cases hc
      exact ht.of_mem_children (List.mem_of_getElem? hi)

/-- The meaning of an operator is a literal or one of the operands. -/
theorem Builtin.satisfies_apply {op : Op} {args : List Value} (h : ∀ v ∈ args, v.WellFormed) :
    SatisfiesM Value.WellFormed (Builtin.apply op args) := by
  refine SatisfiesM.trivial.bind fun _ _ => ?_
  unfold applyCounted
  split
  -- the value itself, the last of a sequence, and a branch are operands
  · exact .pure (h _ (by simp))
  · exact .pure (h _ (by simp))
  · exact satisfiesM_branch (.pure (h _ (by simp))) (.pure (h _ (by simp)))
  · exact satisfiesM_throw _
  · exact satisfiesM_throw _
  · exact satisfiesM_throw _
  -- all others are literals
  · exact SatisfiesM.trivial.bind fun _ _ => SatisfiesM.trivial.bind fun _ _ => .pure rfl
  · exact SatisfiesM.trivial.bind fun _ _ => SatisfiesM.trivial.bind fun _ _ =>
      SatisfiesM.trivial.bind fun _ _ => .pure rfl
  · exact satisfiesM_throw _

namespace Level

/-- A node over well-formed values is well-formed. -/
theorem satisfies_makeTree {tag : Tag} {values : List Value} (h : ∀ v ∈ values, v.WellFormed) :
    SatisfiesM Value.WellFormed (makeTree tag values) := by
  unfold makeTree
  split
  · unfold makeLeaf
    split
    · split
      · next l _ => exact .pure (Tree.wellFormed_leaf l)
      · exact satisfiesM_throw _
    · exact satisfiesM_throw _
  · refine (satisfiesM_mapM fun v hv => (h v hv).toTree).bind fun cs hcs => ?_
    exact (Tree.satisfies_make hcs).bind fun t ht => .pure ht

end Level

variable {m : Type → Type} [Monad m] [LawfulMonad m] [MonadExcept Error m] [LawfulThrow m]

/-- The user's functions and leaves give well-formed values from well-formed ones. -/
structure Library.KeepsWellFormed (lib : Library m) : Prop where
  function : ∀ {name args}, (∀ v ∈ args, v.WellFormed) →
    SatisfiesM Value.WellFormed (lib.function name args)
  leaf : ∀ {name t state data}, t.WellFormed → state.WellFormed → data.WellFormed →
    SatisfiesM Value.WellFormed (lib.leaf name t state data)

/-- What a level gives from well-formed parts is well-formed. -/
structure Level.KeepsWellFormed (l : Level m) : Prop where
  apply : ∀ {s a}, s.WellFormed → a.WellFormed → SatisfiesM Value.WellFormed (l.apply s a)
  transform : ∀ {s g}, s.WellFormed → g.WellFormed → SatisfiesM Value.WellFormed (l.transform s g)
  rebuild : ∀ {t}, t.WellFormed → SatisfiesM Tree.WellFormed (l.rebuild t)
  evaluate : ∀ {s inner?}, s.WellFormed → (∀ a ∈ inner?, a.WellFormed) →
    SatisfiesM Value.WellFormed (l.evaluate s inner?)

/-- The grammar that recursion stands for is well-formed. -/
theorem Level.satisfies_root {root? : Option Grammar} (hroot : ∀ g ∈ root?, g.WellFormed) :
    SatisfiesM Grammar.WellFormed (Level.root root? : m Grammar) := by
  cases root? with
  | none => exact satisfiesM_throw _
  | some g => exact .pure (hroot g rfl)

namespace Level.KeepsWellFormed

variable {below : Level m} (h : below.KeepsWellFormed) {lib : Library m}
  (hlib : lib.KeepsWellFormed) {s : Site} (hs : s.WellFormed)

include h

omit [MonadExcept Error m] [LawfulThrow m] in
theorem copy {t : Tree} (ht : t.WellFormed) : SatisfiesM Tree.WellFormed (Level.copy below t) := by
  unfold Level.copy
  split
  · exact .pure ht
  · exact h.rebuild ht

/-- Copying keeps trees well-formed. -/
theorem rebuildStep {t : Tree} (ht : t.WellFormed) :
    SatisfiesM Tree.WellFormed (Level.rebuildStep below t) := by
  refine (satisfiesM_mapM fun c hc => h.copy (ht.of_mem_children hc)).bind fun cs hcs => ?_
  exact satisfiesM_lift (Tree.satisfies_make hcs)

include hs

omit [LawfulMonad m] [MonadExcept Error m] [LawfulThrow m] in
theorem childValue {inner? : Option Action} (hinner : ∀ a ∈ inner?, a.WellFormed) {c : Tree}
    (hc : c.WellFormed) : SatisfiesM Value.WellFormed (Level.childValue below s inner? c) := by
  have hsite : Site.WellFormed { s with node := c } := { hs with node := hc }
  cases inner? with
  | none => exact h.evaluate hsite (by simp)
  | some a => exact h.apply hsite (hinner a rfl)

theorem operatorValue {inner? : Option Action} (hinner : ∀ a ∈ inner?, a.WellFormed) (op : Op) :
    SatisfiesM Value.WellFormed (Level.operatorValue below s inner? op) := by
  have hvalue (i : Nat) : SatisfiesM Value.WellFormed
      (Outcome.lift (s.node.child i) >>= Level.childValue below s inner?) :=
    (satisfiesM_lift (Tree.satisfies_child hs.node i)).bind fun c hc => h.childValue hs hinner hc
  unfold Level.operatorValue
  extract_lets value truth
  split
  -- `and` and `or` give truth values, `if` the value of a child
  · exact satisfiesM_branch (SatisfiesM.trivial.bind fun _ _ => .pure rfl) (.pure rfl)
  · exact satisfiesM_branch (.pure rfl) (SatisfiesM.trivial.bind fun _ _ => .pure rfl)
  · exact satisfiesM_branch (hvalue 1) (hvalue 2)
  · refine (satisfiesM_mapM fun c hc =>
      h.childValue hs hinner (hs.node.of_mem_children hc)).bind fun vs hvs => ?_
    exact satisfiesM_lift (Builtin.satisfies_apply hvs)

/-- Evaluation gives well-formed values. -/
theorem evaluateStep {inner? : Option Action} (hinner : ∀ a ∈ inner?, a.WellFormed) :
    SatisfiesM Value.WellFormed (Level.evaluateStep below s inner?) := by
  unfold Level.evaluateStep
  split
  · exact .pure rfl
  · split
    · exact h.operatorValue hs hinner _
    · exact satisfiesM_throw _

theorem rebuildBy {pairs : List (Tree × Grammar)}
    (hpairs : ∀ p ∈ pairs, p.1.WellFormed ∧ p.2.WellFormed) :
    SatisfiesM Value.WellFormed (Level.rebuildBy below s pairs) := by
  have hchild : ∀ p ∈ pairs, SatisfiesM Tree.WellFormed (do
      let v ← below.transform { s with node := p.1, state := .node s.node } p.2
      Outcome.lift v.toTree) := by
    intro p hp
    obtain ⟨hnode, hg⟩ := hpairs p hp
    have hsite : Site.WellFormed { s with node := p.1, state := .node s.node } :=
      ⟨hs.root, hnode, hs.node, hs.data⟩
    exact (h.transform hsite hg).bind fun v hv => satisfiesM_lift hv.toTree
  unfold Level.rebuildBy
  split
  · exact .pure hs.node
  · refine (satisfiesM_mapM hchild).bind fun cs hcs => ?_
    exact (satisfiesM_lift (Tree.satisfies_make hcs)).bind fun t ht => .pure ht

include hlib

/-- A call gives a well-formed value. -/
theorem callStep {function : Action} {args : List Action} (hfunction : function.WellFormed)
    (hargs : ∀ a ∈ args, a.WellFormed) :
    SatisfiesM Value.WellFormed (Level.callStep below lib s function args) := by
  refine (h.apply hs hfunction).bind fun v hv => ?_
  cases v with
  | lit l => exact satisfiesM_throw _
  | node t => exact satisfiesM_throw _
  | func f =>
      refine (satisfiesM_mapM fun a ha => h.apply hs (hargs a ha)).bind fun vs hvs => ?_
      refine SatisfiesM.trivial.bind fun _ _ => ?_
      cases f.meaning with
      | builtin op => exact satisfiesM_lift (Builtin.satisfies_apply hvs)
      | named name => exact hlib.function hvs

theorem caseStep {c : Case} (hc : c.passes .wellFormed = true) :
    SatisfiesM Value.WellFormed (Level.caseStep below lib s c) := by
  obtain ⟨pattern, body⟩ := c
  obtain ⟨hpattern, hbody⟩ := Case.passes_iff.mp hc
  match body, hbody with
  | [], _ => exact h.transform hs hpattern
  | [a], hbody => exact h.apply hs (hbody a List.mem_cons_self)
  | function :: arg :: args, hbody =>
      exact h.callStep hlib hs (hbody function List.mem_cons_self)
        fun a ha => hbody a (List.mem_cons_of_mem _ ha)

/-- A well-formed grammar computes well-formed values. -/
theorem transformStep {g : Grammar} (hg : g.WellFormed) :
    SatisfiesM Value.WellFormed (Level.transformStep below lib s g) := by
  -- patterns that say nothing of the children leave the node as it is
  have hkept (g : Grammar) :
      SatisfiesM Value.WellFormed (do Level.ensure below s g; return Value.node s.node) :=
    SatisfiesM.trivial.bind fun _ _ => .pure hs.node
  cases g with
  | wildcard => exact hkept _
  | exact signature => exact hkept _
  | terminal kind? => exact hkept _
  | literal l => exact hkept _
  | except g => exact hkept _
  | node tag? gs =>
      obtain ⟨-, hgs⟩ := Grammar.passes_node.mp hg
      refine SatisfiesM.trivial.bind fun _ _ => h.rebuildBy hs fun p hp => ?_
      obtain ⟨hchild, hpattern⟩ := List.of_mem_zip hp
      exact ⟨hs.node.of_mem_children hchild, hgs p.2 hpattern⟩
  | vararg tag? leading rest =>
      obtain ⟨-, hleading, hrest⟩ := Grammar.passes_vararg.mp hg
      refine SatisfiesM.trivial.bind fun _ _ => h.rebuildBy hs fun p hp => ?_
      obtain ⟨⟨c, i⟩, hplace, rfl⟩ := List.mem_map.mp hp
      exact ⟨hs.node.of_mem_children (List.fst_mem_of_mem_zipIdx hplace),
        Grammar.passes_getD hleading hrest i⟩
  | all gs =>
      obtain ⟨-, hgs⟩ := Grammar.passes_all.mp hg
      refine SatisfiesM.trivial.bind fun _ _ => ?_
      split
      · next last hlast => exact h.transform hs (hgs last (List.mem_of_getLast? hlast))
      · exact .pure hs.node
  | any gs =>
      obtain ⟨-, hgs⟩ := Grammar.passes_any.mp hg
      refine (satisfiesM_firstFrom _ gs 0).bind fun found? hfound => ?_
      cases found? with
      | none => exact satisfiesM_throw _
      | some found => exact h.transform hs (hgs found.2 (hfound found rfl))
  | choose c yes no =>
      obtain ⟨-, -, hyes, hno⟩ := Grammar.passes_choose.mp hg
      exact satisfiesM_branch (h.transform hs hyes) (h.transform hs hno)
  | switch cases =>
      obtain ⟨-, hcases⟩ := Grammar.passes_switch.mp hg
      refine (satisfiesM_firstFrom _ cases 0).bind fun found? hfound => ?_
      cases found? with
      | none => exact satisfiesM_throw _
      | some found => exact h.caseStep hlib hs (hcases found.2 (hfound found rfl))
  | recurse => exact (Level.satisfies_root hs.root).bind fun g hg => h.transform hs hg

/-- A well-formed action computes well-formed values. -/
theorem applyStep (whenDefault : WhenDefault) {a : Action} (ha : a.WellFormed) :
    SatisfiesM Value.WellFormed (Level.applyStep below lib whenDefault s a) := by
  cases a with
  | constant v => exact .pure ha
  | arg which =>
      cases which with
      | this => exact .pure hs.node
      | state => exact .pure hs.state
      | data => exact .pure hs.data
  | child i =>
      exact (satisfiesM_lift (Tree.satisfies_child hs.node i)).bind fun c hc => .pure hc
  | value =>
      unfold Level.applyStep
      dsimp only
      split
      · exact .pure rfl
      · exact satisfiesM_throw _
  | passThrough => exact (h.copy hs.node).bind fun t ht => .pure ht
  | call function args =>
      obtain ⟨-, hfunction, hargs⟩ := Action.passes_call.mp ha
      exact h.callStep hlib hs hfunction hargs
  | when pattern inner? =>
      obtain ⟨-, hpattern, hinner⟩ := Action.passes_when.mp ha
      refine satisfiesM_branch ?_ (satisfiesM_throw _)
      cases inner? with
      | some inner => exact h.apply hs (hinner inner rfl)
      | none =>
          cases whenDefault with
          | pattern => exact h.transform hs hpattern
          | passThrough => exact (h.copy hs.node).bind fun t ht => .pure ht
  | algorithm g =>
      obtain ⟨-, hg⟩ := Action.passes_algorithm.mp ha
      have hsite : Site.WellFormed { s with root? := some g } :=
        { hs with root := fun g' hg' => by cases hg'; exact hg rfl }
      exact h.transform hsite (hg rfl)
  | leaf name => exact hlib.leaf hs.node hs.state hs.data
  | invoke action target state? data? =>
      obtain ⟨-, haction, htarget, hstate, hdata⟩ := Action.passes_invoke.mp ha
      have hinvoked {t : Tree} {state data : Value} (ht : t.WellFormed) (hst : state.WellFormed)
          (hd : data.WellFormed) :
          SatisfiesM Value.WellFormed (below.apply { s with node := t, state, data } action) :=
        h.apply ⟨hs.root, ht, hst, hd⟩ haction
      refine (h.apply hs htarget).bind fun v hv => ?_
      refine (satisfiesM_lift hv.toTree).bind fun t ht => ?_
      -- a part that is not given is kept, and the same follows either way
      cases state? with
      | none =>
          refine (SatisfiesM.pure hs.state).bind fun state hst => ?_
          cases data? with
          | none => exact (SatisfiesM.pure hs.data).bind fun data hd => hinvoked ht hst hd
          | some b => exact (h.apply hs (hdata b rfl)).bind fun data hd => hinvoked ht hst hd
      | some a =>
          refine (h.apply hs (hstate a rfl)).bind fun state hst => ?_
          cases data? with
          | none => exact (SatisfiesM.pure hs.data).bind fun data hd => hinvoked ht hst hd
          | some b => exact (h.apply hs (hdata b rfl)).bind fun data hd => hinvoked ht hst hd
  | fold start step reverse =>
      obtain ⟨-, hstart, hstep⟩ := Action.passes_fold.mp ha
      refine (h.apply hs hstart).bind fun v hv => List.satisfiesM_foldlM hv fun acc hacc c hc => ?_
      have hchild : c ∈ s.node.children := by
        cases reverse with
        | false => exact hc
        | true => exact List.mem_reverse.mp hc
      exact h.apply ⟨hs.root, hs.node.of_mem_children hchild, hacc, hs.data⟩ hstep
  | make tag args =>
      obtain ⟨-, hargs⟩ := Action.passes_make.mp ha
      refine (satisfiesM_mapM fun a ha => h.apply hs (hargs a ha)).bind fun vs hvs => ?_
      exact satisfiesM_lift (Level.satisfies_makeTree hvs)
  | evaluate inner? =>
      obtain ⟨-, hinner⟩ := Action.passes_evaluate.mp ha
      exact h.evaluate hs hinner
  | recurse => exact (Level.satisfies_root hs.root).bind fun g hg => h.transform hs hg

omit hs in
/-- The level above gives well-formed values as well. -/
theorem above (whenDefault : WhenDefault) :
    (Level.above lib whenDefault fun _ => below).KeepsWellFormed where
  apply := fun hs ha => h.applyStep hlib hs whenDefault ha
  transform := fun hs hg => h.transformStep hlib hs hg
  rebuild := fun ht => h.rebuildStep ht
  evaluate := fun hs hinner => h.evaluateStep hs hinner

end Level.KeepsWellFormed

namespace Engine

/-- On every level well-formed parts give well-formed values. -/
theorem keepsWellFormed_level {e : Engine m} (hlib : e.library.KeepsWellFormed) (n : Nat) :
    (e.level n).KeepsWellFormed := by
  induction n with
  | zero => exact ⟨fun _ _ => satisfiesM_throw _, fun _ _ => satisfiesM_throw _,
      fun _ => satisfiesM_throw _, fun _ _ => satisfiesM_throw _⟩
  | succ n ih => exact ih.above hlib e.config.whenDefault

end Engine

namespace Stock

/-- The stock functions give well-formed values. -/
theorem satisfies_callFunction {name : String} {args : List Value}
    (hargs : ∀ v ∈ args, v.WellFormed) :
    SatisfiesM Value.WellFormed (callFunction name args) := by
  unfold callFunction
  split
  case h_5 a b =>
    have hpair {t t' : Tree} (ht : t.WellFormed) (ht' : t'.WellFormed) :
        ∀ c ∈ [t, t'], c.WellFormed := by simp [ht, ht']
    refine (hargs a (by simp)).toTree.bind fun t ht => ?_
    refine (hargs b (by simp)).toTree.bind fun t' ht' => ?_
    exact (Tree.satisfies_make (hpair ht ht')).bind fun t ht => .pure ht
  -- all others give literals or errors
  all_goals first
    | exact .pure rfl
    | exact satisfiesM_throw _

theorem satisfies_append (t : Tree) (state : Value) :
    SatisfiesM Value.WellFormed (append t state) := by
  unfold append
  split
  · exact .pure rfl
  · exact satisfiesM_throw _

theorem satisfies_lookUp (t : Tree) (data : Value) :
    SatisfiesM Value.WellFormed (lookUp t data) := by
  unfold lookUp
  repeat' split
  all_goals first
    | exact .pure rfl
    | exact satisfiesM_throw _

/-- The stock leaves give well-formed values. -/
theorem satisfies_runLeaf (name : String) (t : Tree) (state data : Value) :
    SatisfiesM Value.WellFormed (runLeaf name t state data) := by
  unfold runLeaf
  split
  all_goals first
    | exact .pure rfl
    | exact satisfiesM_throw _
    | exact satisfies_append t state
    | exact satisfies_lookUp t data

/-- The functions and leaves of the stock give literals, operators and checked pairs. -/
theorem keepsWellFormed_library : library.KeepsWellFormed where
  function := by
    intro name args hargs
    show SatisfiesM _ (runFunction name args)
    unfold runFunction
    split
    · exact SatisfiesM.trivial.bind fun _ _ => SatisfiesM.trivial.bind fun _ _ => .pure rfl
    · exact satisfiesM_lift (satisfies_callFunction hargs)
  leaf := fun _ _ _ => satisfiesM_lift (satisfies_runLeaf _ _ _ _)

end Stock

/-- What is read is well-formed, and what is run gives well-formed values if all that goes into the
run is. -/
theorem Engine.wellFormed_results :
    (∀ (s : String) (t : Tree), Tree.parse? s = some t → t.WellFormed)
      ∧ ∀ {σ : Type} (e : Engine (StateT σ Outcome)), e.library.KeepsWellFormed →
        ∀ (t : Tree) (state data : Value), t.WellFormed → state.WellFormed → data.WellFormed →
          (∀ (a : Action) (s s' : σ) (v : Value), a.WellFormed →
            (e.apply t state data a).run s = .ok (v, s') → v.WellFormed)
          ∧ (∀ (g : Grammar) (s s' : σ) (v : Value), g.WellFormed →
            (e.transform t state data g).run s = .ok (v, s') → v.WellFormed)
          ∧ ∀ (g : Grammar) (s s' : σ) (t' : Tree), g.WellFormed →
            (e.transformTree t g).run s = .ok (t', s') → t'.WellFormed := by
  refine ⟨fun s t => Tree.wellFormed_of_parse?, ?_⟩
  intro σ e hlib t state data ht hstate hdata
  have htop : e.top.KeepsWellFormed := keepsWellFormed_level hlib e.config.maxDepth
  have htransform {g : Grammar} {state data : Value} (hg : g.WellFormed)
      (hstate : state.WellFormed) (hdata : data.WellFormed) :
      SatisfiesM Value.WellFormed (e.transform t state data g) :=
    htop.transform ⟨by simpa using hg, ht, hstate, hdata⟩ hg
  refine ⟨?_, ?_, ?_⟩
  · intro a s s' v ha hrun
    exact of_run_eq_ok (htop.apply ⟨by simp, ht, hstate, hdata⟩ ha) hrun
  · intro g s s' v hg hrun
    exact of_run_eq_ok (htransform hg hstate hdata) hrun
  · intro g s s' t' hg hrun
    have htree : SatisfiesM Tree.WellFormed (e.transformTree t g) :=
      (htransform hg Value.wellFormed_unit Value.wellFormed_unit).bind fun v hv =>
        satisfiesM_lift hv.toTree
    exact of_run_eq_ok htree hrun

/-- A text that is read; a pair that a function of the stock makes of a node and its copy; and a sum
whose children are run by the grammar itself. -/
theorem Engine.wellFormed_results_pair :
    (Tree.node (.builtin .plus) [.leaf (.int 1), .leaf (.int 2)]).WellFormed
      ∧ (Value.node (.node (.user "pair") [.node (.user "f") [.leaf (.int 1)],
          .node (.user "f") [.leaf (.int 1)]])).WellFormed
      ∧ (Tree.node (.builtin .plus) [.node (.user "g") [.leaf (.int 1)],
          .node (.user "g") [.leaf (.int 2)]]).WellFormed := by
  have hstock (t : Tree) := wellFormed_results.2 ⟨Stock.library, ⟨8, .pattern⟩⟩
    Stock.keepsWellFormed_library t .unit .unit
  refine ⟨?_, ?_, ?_⟩
  · exact wellFormed_results.1 "(plus 1 2)" _ (by cbv)
  · exact (hstock (.node (.user "f") [.leaf (.int 1)]) rfl rfl rfl).1
      (.call (.constant (.func (Stock.function "pair" 0))) [.arg .this, .passThrough]) 0 0 _ rfl rfl
  · exact (hstock (.node (.builtin .plus) [.leaf (.int 1), .leaf (.int 2)]) rfl rfl rfl).2.2
      (.switch [⟨.node (some (.builtin .plus)) [.recurse, .recurse], []⟩,
        ⟨.terminal none, [.make (.user "g") [.arg .this]]⟩]) 0 0 _ rfl rfl

end TreeGrammar
