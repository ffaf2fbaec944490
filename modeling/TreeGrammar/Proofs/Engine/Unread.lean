import TreeGrammar.Proofs.Engine.DepthLimit
import TreeGrammar.Proofs.Engine.Question

/-! # Unread — state and datum are seen through selectors and leaves only

    Where neither a selector of the datum nor a leaf stands anywhere, all the engine does
    with the datum is to hand it on.  A level that forgets the datum before it answers is
    then as good as the plain one, as the step above it cannot tell the two apart and
    does not look at its own.  The same goes for the state, which folds and rebuilt
    children replace on the way: what they put there is forgotten as well. -/

namespace TreeGrammar

/-- Neither a selector of the argument nor a leaf stands anywhere. -/
def Inspection.ignoring (which : Arg) : Inspection where
  pattern _ := true
  action a := match a with
    | .arg read => read != which
    | .leaf _ => false
    | _ => true
  algorithms := true

/-- No selector of the argument and no leaf stands in the action, nor in its patterns, cases and
algorithms. -/
def Action.Ignores (which : Arg) (a : Action) : Prop :=
  a.passes (.ignoring which) = true

instance (which : Arg) (a : Action) : Decidable (a.Ignores which) :=
  inferInstanceAs (Decidable (a.passes (.ignoring which) = true))

namespace Question

/-- Everything that stands in what is asked passes, and so does the enclosing grammar. -/
def Passes (k : Inspection) : Question → Prop
  | accepts root? _ g => (∀ r ∈ root?, r.passes k = true) ∧ g.passes k = true
  | apply s a => (∀ r ∈ s.root?, r.passes k = true) ∧ a.passes k = true
  | transform s g => (∀ r ∈ s.root?, r.passes k = true) ∧ g.passes k = true
  | rebuild _ => True
  | evaluate s inner? => (∀ r ∈ s.root?, r.passes k = true) ∧ ∀ a ∈ inner?, a.passes k = true

/-- What a step asks passes with what it is asked, if nested algorithms are inspected. -/
theorem Passes.of_asks {k : Inspection} (hk : k.algorithms = true) {w : WhenDefault}
    {q q' : Question} (hq : q.Passes k) (h : q.Asks w q') : q'.Passes k := by
  cases h with
  | acceptsBeside hmem | matchedBeside hmem | transformBeside hmem =>
      exact ⟨hq.1, Grammar.passes_beside hq.2 hmem⟩
  | acceptsBeneath hmem _ | transformBeneath hmem _ =>
      exact ⟨hq.1, Grammar.passes_beneath hq.2 hmem⟩
  | acceptsCondition | transformCondition =>
      exact ⟨hq.1, Grammar.passes_actions hq.2 (List.mem_singleton_self _)⟩
  | transformBody hmem => exact ⟨hq.1, Grammar.passes_actions hq.2 hmem⟩
  | acceptsRoot | transformRoot | applyRoot => exact ⟨hq.1, hq.1 _ rfl⟩
  | matched => exact hq
  | operand hmem => exact ⟨hq.1, Action.passes_operands hq.2 hmem⟩
  | guard | guarded _ => exact ⟨hq.1, (Action.passes_when.mp hq.2).2.1⟩
  | guardedCopy | copy | rebuildChild => exact trivial
  | @algorithm s g =>
      have hg : g.passes k = true := (Action.passes_algorithm.mp hq.2).2 hk
      refine ⟨fun r hr => ?_, hg⟩
      obtain rfl := Option.mem_some.mp hr
      exact hg
  | evaluation => exact ⟨hq.1, (Action.passes_evaluate.mp hq.2).2⟩
  | evaluateChild => exact ⟨hq.1, nofun⟩
  | evaluateInner => exact ⟨hq.1, hq.2 _ rfl⟩

end Question

/-! ## Forgetting -/

/-- The site with unit in place of its state or datum; the node is always kept. -/
def Site.without (which : Arg) (s : Site) : Site :=
  { s with
    state := if which = .state then .unit else s.state
    data := if which = .data then .unit else s.data }

/-- The level that forgets its state or datum before it answers. -/
def Level.without {m : Type → Type} (which : Arg) (l : Level m) : Level m where
  accepts := l.accepts
  apply s := l.apply (s.without which)
  transform s := l.transform (s.without which)
  rebuild := l.rebuild
  evaluate s := l.evaluate (s.without which)

namespace Level

variable {m : Type → Type} {which : Arg} {l : Level m}

theorem childValue_without (s : Site) (inner? : Option Action) (c : Tree) :
    childValue (l.without which) (s.without which) inner? c
      = childValue (l.without which) s inner? c := by
  cases which <;> cases inner? <;> rfl

variable [Monad m] [MonadExcept Error m] {lib : Library m} {w : WhenDefault}

/-- A case asks nothing else at a site without the argument. -/
theorem caseStep_without (s : Site) (c : Case) :
    caseStep (l.without which) lib (s.without which) c = caseStep (l.without which) lib s c := by
  obtain ⟨pattern, body⟩ := c
  match body with
  | [] | [_] | _ :: _ :: _ => cases which <;> rfl

theorem evaluateStep_without (s : Site) (inner? : Option Action) :
    evaluateStep (l.without which) (s.without which) inner?
      = evaluateStep (l.without which) s inner? := by
  have hchild : childValue (l.without which) (s.without which) inner?
      = childValue (l.without which) s inner? := funext (childValue_without s inner?)
  unfold evaluateStep operatorValue
  rw [hchild]
  rfl

/-- Nor does a grammar that is run. -/
theorem transformStep_without (s : Site) (g : Grammar) :
    transformStep (l.without which) lib (s.without which) g
      = transformStep (l.without which) lib s g := by
  cases g with
  | switch cases =>
      have hcase : caseStep (l.without which) lib (s.without which)
          = caseStep (l.without which) lib s := funext (caseStep_without s)
      unfold transformStep
      dsimp only
      rw [hcase]
      rfl
  -- children are run with a state of their own, which is forgotten as well
  | _ => cases which <;> rfl

variable [LawfulMonad m]

/-- Nor does an action that ignores the argument. -/
theorem applyStep_without (s : Site) {a : Action} (ha : a.Ignores which) :
    applyStep (l.without which) lib w (s.without which) a
      = applyStep (l.without which) lib w s a := by
  cases a with
  | arg read =>
      have hread : read ≠ which := bne_iff_ne.mp ha
      cases read with
      | this => rfl
      | state => exact congrArg pure (if_neg hread.symm)
      | data => exact congrArg pure (if_neg hread.symm)
  | leaf name => cases ha
  | invoke action target state? data? =>
      -- a part that is not given is read from the site, and what is read is forgotten later
      unfold applyStep
      cases which <;> cases state? <;> cases data? <;> simp only [pure_bind] <;> rfl
  | _ => cases which <;> rfl

/-- What passes gets the same answer whether or not the state or datum is forgotten. -/
def Ignores (which : Arg) (l : Level m) : Prop :=
  ∀ q : Question, q.Passes (.ignoring which) → (l.without which).answer q = l.answer q

omit [Monad m] [LawfulMonad m] [MonadExcept Error m] in
/-- Levels that answer alike do so when they forget first. -/
theorem answer_without_congr {l' : Level m}
    (h : ∀ q : Question, q.Passes (.ignoring which) → l.answer q = l'.answer q) (q : Question)
    (hq : q.Passes (.ignoring which)) :
    (l.without which).answer q = (l'.without which).answer q := by
  cases q with
  | accepts root? t g => exact h (.accepts root? t g) hq
  | apply s a => exact h (.apply (s.without which) a) hq
  | transform s g => exact h (.transform (s.without which) g) hq
  | rebuild t => exact h (.rebuild t) hq
  | evaluate s inner? => exact h (.evaluate (s.without which) inner?) hq

/-- A step over a level that forgets may as well forget first. -/
theorem ignores_above_without : (above lib w fun _ => l.without which).Ignores which := by
  intro q hq
  cases q with
  | accepts root? t g => rfl
  | apply s a => exact applyStep_without s hq.2
  | transform s g => exact transformStep_without s g
  | rebuild t => rfl
  | evaluate s inner? => exact evaluateStep_without s inner?

theorem compatible_eq {m : Type → Type} [Monad m] [MonadExcept Error m] :
    Compatible m m fun x y => x = y where
  own := fun _ => rfl
  bind := by
    rintro α β x _ f g rfl hfg
    rw [funext hfg]

/-- The step does not see whether the level below it forgets, nor does it look itself. -/
theorem Ignores.above [LawfulThrow m] (h : l.Ignores which) (lib : Library m) (w : WhenDefault) :
    (Level.above lib w fun _ => l).Ignores which := by
  have hbelow (q : Question) (hq : q.Passes (.ignoring which)) :
      (Level.above lib w fun _ => l).answer q
        = (Level.above lib w fun _ => l.without which).answer q := by
    have hsame : lib.Compared lib fun x y => x = y := ⟨fun _ _ => rfl, fun _ _ _ _ => rfl⟩
    refine compatible_eq.answer_above hsame l (l.without which) (fun q' hasks => ?_) fun _ _ => rfl
    exact (h q' (hq.of_asks rfl hasks)).symm
  intro q hq
  rw [hbelow q hq, answer_without_congr hbelow q hq]
  exact ignores_above_without q hq

end Level

namespace Engine

variable {m : Type → Type} [Monad m] [LawfulMonad m] [MonadExcept Error m] [LawfulThrow m]

/-- At every level, what ignores the argument is answered without it. -/
theorem level_ignores (e : Engine m) (which : Arg) (n : Nat) : (e.level n).Ignores which := by
  induction n with
  | zero =>
      intro q _
      cases q <;> rfl
  | succ n ih => exact ih.above e.library e.config.whenDefault

/-- An action that ignores the state or the datum has the same outcome at any two sites that differ
in nothing else. -/
theorem apply_congr_without (e : Engine m) {which : Arg} {a : Action} (ha : a.Ignores which)
    {t : Tree} {state data state' data' : Value}
    (h : Site.without which ⟨none, t, state, data⟩ = Site.without which ⟨none, t, state', data'⟩) :
    e.apply t state data a = e.apply t state' data' a := by
  have hforget (state data : Value) :
      e.top.apply (Site.without which ⟨none, t, state, data⟩) a = e.apply t state data a :=
    e.level_ignores which _ (.apply ⟨none, t, state, data⟩ a) ⟨nofun, ha⟩
  rw [← hforget state data, ← hforget state' data', h]

/-- Where neither a selector of the datum nor a leaf stands anywhere in an action, its outcome is
the same for every datum; without a selector of the state and a leaf it is the same for every
state. -/
theorem apply_unread (e : Engine m) (t : Tree) (a : Action) :
    (a.Ignores .data → ∀ state data data', e.apply t state data a = e.apply t state data' a)
      ∧ (a.Ignores .state →
          ∀ state state' data, e.apply t state data a = e.apply t state' data a) :=
  ⟨fun ha _ _ _ => e.apply_congr_without ha rfl, fun ha _ _ _ => e.apply_congr_without ha rfl⟩

/-- The sum of all leaves, which a fold carries in the state. -/
def leafSum : Action :=
  .algorithm (.switch [⟨.terminal none, [.value]⟩, ⟨.wildcard,
    [.fold (.constant (.lit (.int 0)))
      (.call (.constant (.func (.ofOp .plus 0))) [.arg .state, .recurse]) false]⟩])

/-- A copy with the datum for every leaf; each node is the state of its children. -/
def fillLeaves : Action :=
  .algorithm (.switch [⟨.terminal none, [.arg .data]⟩, ⟨.vararg none [] .recurse, []⟩])

/-- The sum has no use for a datum and the copy none for a state, though each sets the state on its
way down. -/
theorem apply_unread_recursive :
    (leafSum.Ignores .data
        ∧ (under (.constant .unit) .pattern 16).apply
            (.node (.user "f") [.leaf (.int 1), .node (.user "g") [.leaf (.int 2)]])
            .unit (.lit (.str "d")) leafSum = .ok (.lit (.int 3)))
      ∧ fillLeaves.Ignores .state
        ∧ (under (.constant .unit) .pattern 16).apply
            (.node (.user "f") [.leaf (.int 1), .node (.user "g") [.leaf (.int 2)]])
            (.lit (.str "s")) (.lit (.int 0)) fillLeaves
          = .ok (.node (.node (.user "f") [.leaf (.int 0),
              .node (.user "g") [.leaf (.int 0)]])) := by
  refine ⟨⟨by decide, ?_⟩, by decide, ?_⟩
  · rw [(apply_unread _ _ leafSum).1 (by decide) .unit (.lit (.str "d")) .unit]
    rfl
  · rw [(apply_unread _ _ fillLeaves).2 (by decide) (.lit (.str "s")) .unit (.lit (.int 0))]
    rfl

end Engine

end TreeGrammar
