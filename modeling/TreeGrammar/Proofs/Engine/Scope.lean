import TreeGrammar.Engine
import TreeGrammar.Proofs.Grammar.Inspection
import TreeGrammar.Proofs.Verdict

/-! # Scope — what `recurse` means matters only where it stands

    The grammar that `recurse` means is handed down from step to step and is looked at
    by `recurse` alone; a nested algorithm puts its own grammar in its place.  So a
    closed grammar or action does the same whatever encloses it, on every level. -/

namespace TreeGrammar

variable {m : Type → Type} [Monad m] [MonadExcept Error m]

/-- The same site without an enclosing grammar. -/
def Site.unbound (s : Site) : Site :=
  { s with root? := none }

/-- On this level a closed grammar or action does the same as without an enclosing grammar. -/
structure Level.Lexical (l : Level m) : Prop where
  accepts : ∀ {g : Grammar}, g.IsClosed → ∀ root? t, l.accepts root? t g = l.accepts none t g
  apply : ∀ {a : Action}, a.IsClosed → ∀ s, l.apply s a = l.apply s.unbound a
  transform : ∀ {g : Grammar}, g.IsClosed → ∀ s, l.transform s g = l.transform s.unbound g
  evaluate : ∀ {inner? : Option Action}, (∀ a ∈ inner?, a.IsClosed) →
    ∀ s, l.evaluate s inner? = l.evaluate s.unbound inner?

namespace Level.Lexical

variable {below : Level m} (h : below.Lexical) (root? : Option Grammar) (t : Tree) (s : Site)

include h

theorem condition {c : Action} (hc : c.IsClosed) :
    Level.condition below root? t c = Level.condition below none t c := by
  rw [Level.condition, Level.condition, h.apply hc]
  rfl

/-- A closed grammar matches the same way without anything around it. -/
theorem acceptsStep {g : Grammar} (hg : g.IsClosed) :
    Level.acceptsStep below root? t g = Level.acceptsStep below none t g := by
  cases g with
  | wildcard => rfl
  | exact signature => rfl
  | terminal kind? => rfl
  | literal l => rfl
  | node tag? gs =>
      obtain ⟨-, hgs⟩ := Grammar.passes_node.mp hg
      have hpairs : (gs.zip t.children).allM (fun p => below.accepts root? p.2 p.1)
          = (gs.zip t.children).allM (fun p => below.accepts none p.2 p.1) :=
        Verdict.allM_congr fun p hp => h.accepts (hgs p.1 (List.of_mem_zip hp).1) root? p.2
      exact congrArg (if tagAccepts tag? t && t.arity == gs.length then · else pure false) hpairs
  | vararg tag? leading rest =>
      obtain ⟨-, hleading, hrest⟩ := Grammar.passes_vararg.mp hg
      have hplaces : t.children.zipIdx.allM
            (fun p => below.accepts root? p.1 (patternAt leading rest p.2))
          = t.children.zipIdx.allM
            (fun p => below.accepts none p.1 (patternAt leading rest p.2)) :=
        Verdict.allM_congr fun p _ => h.accepts (Grammar.passes_getD hleading hrest p.2) root? p.1
      exact congrArg (if t.isTerminal || !tagAccepts tag? t || t.arity < leading.length
        then pure false else ·) hplaces
  | all gs =>
      obtain ⟨-, hgs⟩ := Grammar.passes_all.mp hg
      exact Verdict.allM_congr fun g hmem => h.accepts (hgs g hmem) root? t
  | any gs =>
      obtain ⟨-, hgs⟩ := Grammar.passes_any.mp hg
      exact Verdict.anyM_congr fun g hmem => h.accepts (hgs g hmem) root? t
  | except g =>
      obtain ⟨-, hg⟩ := Grammar.passes_except.mp hg
      rw [Level.acceptsStep, Level.acceptsStep, h.accepts hg]
  | choose c yes no =>
      obtain ⟨-, hc, hyes, hno⟩ := Grammar.passes_choose.mp hg
      rw [Level.acceptsStep, Level.acceptsStep, h.condition root? t hc, h.accepts hyes root?,
        h.accepts hno root?]
  | switch cases =>
      obtain ⟨-, hcases⟩ := Grammar.passes_switch.mp hg
      exact Verdict.anyM_congr fun c hmem =>
        h.accepts (Case.passes_iff.mp (hcases c hmem)).1 root? t
  | recurse => cases hg

theorem ensure {g : Grammar} (hg : g.IsClosed) :
    Level.ensure below s g = Level.ensure below s.unbound g := by
  rw [Level.ensure, Level.ensure, h.accepts hg]
  rfl

omit [MonadExcept Error m] in
theorem firstCase {cases : List Case} (hcases : ∀ c ∈ cases, c.IsClosed) :
    Level.firstCase below root? t cases = Level.firstCase below none t cases :=
  Verdict.firstFrom_congr
    (fun c hmem => h.accepts (Case.passes_iff.mp (hcases c hmem)).1 root? t) 0

omit [MonadExcept Error m] in
theorem firstAlternative {gs : List Grammar} (hgs : ∀ g ∈ gs, g.IsClosed) :
    Level.firstAlternative below root? t gs = Level.firstAlternative below none t gs :=
  Verdict.firstFrom_congr (fun g hmem => h.accepts (hgs g hmem) root? t) 0

omit [Monad m] [MonadExcept Error m] in
theorem childValue {inner? : Option Action} (hinner : ∀ a ∈ inner?, a.IsClosed) (c : Tree) :
    Level.childValue below s inner? c = Level.childValue below s.unbound inner? c := by
  cases inner? with
  | none => exact h.evaluate (by simp) _
  | some a => exact h.apply (hinner a rfl) _

theorem operatorValue {inner? : Option Action} (hinner : ∀ a ∈ inner?, a.IsClosed) (op : Op) :
    Level.operatorValue below s inner? op = Level.operatorValue below s.unbound inner? op := by
  have hvalue : Level.childValue below s inner? = Level.childValue below s.unbound inner? :=
    funext (h.childValue s hinner)
  unfold Level.operatorValue
  rw [hvalue]
  rfl

theorem evaluateStep {inner? : Option Action} (hinner : ∀ a ∈ inner?, a.IsClosed) :
    Level.evaluateStep below s inner? = Level.evaluateStep below s.unbound inner? := by
  have hoperator : Level.operatorValue below s inner?
      = Level.operatorValue below s.unbound inner? :=
    funext (h.operatorValue s hinner)
  rw [Level.evaluateStep, Level.evaluateStep, hoperator]
  rfl

variable [LawfulMonad m]

theorem callStep (lib : Library m) {function : Action} {args : List Action}
    (hfunction : function.IsClosed) (hargs : ∀ a ∈ args, a.IsClosed) :
    Level.callStep below lib s function args
      = Level.callStep below lib s.unbound function args := by
  have hvalues : args.mapM (below.apply s) = args.mapM (below.apply s.unbound) :=
    Verdict.mapM_congr fun a ha => h.apply (hargs a ha) s
  rw [Level.callStep, Level.callStep, h.apply hfunction s, hvalues]

theorem caseStep (lib : Library m) {c : Case} (hc : c.IsClosed) :
    Level.caseStep below lib s c = Level.caseStep below lib s.unbound c := by
  obtain ⟨pattern, body⟩ := c
  obtain ⟨hpattern, hbody⟩ := Case.passes_iff.mp hc
  match body, hbody with
  | [], _ => exact h.transform hpattern s
  | [a], hbody => exact h.apply (hbody a List.mem_cons_self) s
  | function :: arg :: args, hbody =>
      exact h.callStep s lib (hbody function List.mem_cons_self)
        fun a ha => hbody a (List.mem_cons_of_mem _ ha)

theorem rebuildBy {pairs : List (Tree × Grammar)} (hpairs : ∀ p ∈ pairs, p.2.IsClosed) :
    Level.rebuildBy below s pairs = Level.rebuildBy below s.unbound pairs := by
  have hchild (p : Tree × Grammar) (hp : p ∈ pairs) :
      below.transform { s with node := p.1, state := .node s.node } p.2
        = below.transform { s.unbound with node := p.1, state := .node s.node } p.2 :=
    h.transform (hpairs p hp) _
  rw [Level.rebuildBy, Level.rebuildBy,
    Verdict.mapM_congr fun p hp => congrArg (· >>= fun v => Outcome.lift v.toTree) (hchild p hp)]
  rfl

/-- A closed grammar runs the same way without anything around it. -/
theorem transformStep (lib : Library m) {g : Grammar} (hg : g.IsClosed) :
    Level.transformStep below lib s g = Level.transformStep below lib s.unbound g := by
  -- patterns that say nothing of the children only ask whether the node is accepted
  have hkept {g : Grammar} (hg : g.IsClosed) :
      (do Level.ensure below s g; return Value.node s.node)
        = (do Level.ensure below s.unbound g; return Value.node s.node) := by
    rw [h.ensure s hg]
  cases g with
  | wildcard => exact hkept hg
  | exact signature => exact hkept hg
  | terminal kind? => exact hkept hg
  | literal l => exact hkept hg
  | except g => exact hkept hg
  | node tag? gs =>
      obtain ⟨-, hgs⟩ := Grammar.passes_node.mp hg
      rw [Level.transformStep, Level.transformStep, h.ensure s hg,
        h.rebuildBy s fun p hp => hgs p.2 (List.of_mem_zip hp).2]
      rfl
  | vararg tag? leading rest =>
      obtain ⟨-, hleading, hrest⟩ := Grammar.passes_vararg.mp hg
      have hplaces : ∀ p ∈ s.node.children.zipIdx.map fun p => (p.1, patternAt leading rest p.2),
          p.2.IsClosed := by
        intro p hp
        obtain ⟨q, -, rfl⟩ := List.mem_map.mp hp
        exact Grammar.passes_getD hleading hrest q.2
      rw [Level.transformStep, Level.transformStep, h.ensure s hg]
      exact congrArg (Level.ensure below s.unbound _ >>= fun _ => ·) (h.rebuildBy s hplaces)
  | all gs =>
      obtain ⟨-, hgs⟩ := Grammar.passes_all.mp hg
      rw [Level.transformStep, Level.transformStep, h.ensure s hg]
      cases hlast : gs.getLast? with
      | none => rfl
      | some last => simp only [h.transform (hgs last (List.mem_of_getLast? hlast)) s]
  | any gs =>
      obtain ⟨-, hgs⟩ := Grammar.passes_any.mp hg
      rw [Level.transformStep, Level.transformStep, h.firstAlternative s.root? s.node hgs]
      refine Verdict.firstFrom_bind_congr (below.accepts none s.node) 0 (fun g hmem i => ?_) rfl
      exact h.transform (hgs g hmem) s
  | choose c yes no =>
      obtain ⟨-, hc, hyes, hno⟩ := Grammar.passes_choose.mp hg
      rw [Level.transformStep, Level.transformStep, h.condition s.root? s.node hc,
        h.transform hyes s, h.transform hno s]
      rfl
  | switch cases =>
      obtain ⟨-, hcases⟩ := Grammar.passes_switch.mp hg
      rw [Level.transformStep, Level.transformStep, h.firstCase s.root? s.node hcases]
      refine Verdict.firstFrom_bind_congr (fun c : Case => below.accepts none s.node c.pattern) 0
        (fun c hmem i => ?_) rfl
      exact h.caseStep s lib (hcases c hmem)
  | recurse => cases hg

/-- A closed action runs the same way without anything around it. -/
theorem applyStep (lib : Library m) (whenDefault : WhenDefault) {a : Action} (ha : a.IsClosed) :
    Level.applyStep below lib whenDefault s a
      = Level.applyStep below lib whenDefault s.unbound a := by
  cases a with
  | constant v => rfl
  | arg which => cases which <;> rfl
  | child i => rfl
  | value => rfl
  | passThrough => rfl
  | call function args =>
      obtain ⟨-, hfunction, hargs⟩ := Action.passes_call.mp ha
      exact h.callStep s lib hfunction hargs
  | when pattern inner? =>
      obtain ⟨-, hpattern, hinner⟩ := Action.passes_when.mp ha
      unfold Level.applyStep
      simp only [h.accepts hpattern s.root?, h.transform hpattern s]
      cases inner? with
      | none => cases whenDefault <;> rfl
      | some inner =>
          simp only [h.apply (hinner inner rfl) s]
          rfl
  | algorithm g => rfl
  | leaf name => rfl
  | invoke action target state? data? =>
      obtain ⟨-, haction, htarget, hstate, hdata⟩ := Action.passes_invoke.mp ha
      have hinvoked (t : Tree) (state data : Value) :
          below.apply { s with node := t, state, data } action
            = below.apply { s.unbound with node := t, state, data } action :=
        h.apply haction _
      unfold Level.applyStep
      simp only [h.apply htarget s, hinvoked]
      -- a part that is not given is kept
      cases state? with
      | none =>
          cases data? with
          | none => rfl
          | some b =>
              simp only [h.apply (hdata b rfl) s]
              rfl
      | some a =>
          simp only [h.apply (hstate a rfl) s]
          cases data? with
          | none => rfl
          | some b =>
              simp only [h.apply (hdata b rfl) s]
  | fold start step reverse =>
      obtain ⟨-, hstart, hstep⟩ := Action.passes_fold.mp ha
      have hfold : (fun (acc : Value) (c : Tree) =>
            below.apply { s with node := c, state := acc } step)
          = fun acc c => below.apply { s.unbound with node := c, state := acc } step :=
        funext fun acc => funext fun c => h.apply hstep _
      rw [Level.applyStep, Level.applyStep, h.apply hstart s, hfold]
      rfl
  | make tag args =>
      obtain ⟨-, hargs⟩ := Action.passes_make.mp ha
      have hvalues : args.mapM (below.apply s) = args.mapM (below.apply s.unbound) :=
        Verdict.mapM_congr fun a ha => h.apply (hargs a ha) s
      rw [Level.applyStep, Level.applyStep, hvalues]
  | evaluate inner? =>
      obtain ⟨-, hinner⟩ := Action.passes_evaluate.mp ha
      exact h.evaluate hinner s
  | recurse => cases ha

/-- The level above makes its step in the same way. -/
theorem above (lib : Library m) (whenDefault : WhenDefault) :
    (Level.above lib whenDefault fun _ => below).Lexical where
  accepts := fun hg root? t => h.acceptsStep root? t hg
  apply := fun ha s => h.applyStep s lib whenDefault ha
  transform := fun hg s => h.transformStep s lib hg
  evaluate := fun hinner s => h.evaluateStep s hinner

end Level.Lexical

/-- On every level a closed grammar or action does the same whatever encloses it. -/
theorem Engine.lexical_level [LawfulMonad m] (e : Engine m) (n : Nat) : (e.level n).Lexical := by
  induction n with
  | zero => exact ⟨fun _ _ _ => rfl, fun _ _ => rfl, fun _ _ => rfl, fun _ _ => rfl⟩
  | succ n ih => exact ih.above e.library e.config.whenDefault

end TreeGrammar
