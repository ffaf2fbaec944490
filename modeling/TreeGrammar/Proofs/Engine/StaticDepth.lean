import TreeGrammar.Proofs.Engine.DepthLimit

/-! # Static depth — what never recurses needs no more steps than it is written deep

    Without `recurse`, and where no node is built anew or evaluated level by level, each
    step goes down in the grammar or the action that is run.  Running a grammar takes two
    steps for each constructor, as it is matched one step deeper; an evaluation with an
    inner action takes two as well.  So twice the nesting is a bound for whatever the
    node, the state and the datum are. -/

namespace TreeGrammar

open Outcome (Settled settled_ok settled_error settled_ofStep)

/-- Nothing runs longer for a deeper tree: no `recurse`, no copy and no evaluation without an inner
action, nor a guard that would copy the node. -/
def Inspection.static (whenDefault : WhenDefault) : Inspection where
  pattern g := match g with
    | .recurse => false
    | _ => true
  action a := match a with
    | .recurse | .passThrough | .evaluate none => false
    | .when _ none => whenDefault == .pattern
    | _ => true
  algorithms := true

/-- Nothing in the grammar runs longer for a deeper tree. -/
def Grammar.IsStatic (whenDefault : WhenDefault) (g : Grammar) : Prop :=
  g.passes (.static whenDefault) = true

/-- Nothing in the action runs longer for a deeper tree. -/
def Action.IsStatic (whenDefault : WhenDefault) (a : Action) : Prop :=
  a.passes (.static whenDefault) = true

instance (w : WhenDefault) (g : Grammar) : Decidable (g.IsStatic w) :=
  inferInstanceAs (Decidable (g.passes (.static w) = true))

instance (w : WhenDefault) (a : Action) : Decidable (a.IsStatic w) :=
  inferInstanceAs (Decidable (a.passes (.static w) = true))

namespace Question

/-- What is asked runs no longer for a deeper tree. -/
def IsStatic (whenDefault : WhenDefault) : Question → Prop
  | accepts _ _ g | transform _ g => g.IsStatic whenDefault
  | apply _ a => a.IsStatic whenDefault
  | rebuild _ => False
  | evaluate _ inner? => (Action.evaluate inner?).IsStatic whenDefault

/-- The nesting of the grammar or the action that is asked about. -/
def nesting : Question → Nat
  | accepts _ _ g | transform _ g => g.nesting
  | apply _ a => a.nesting
  | rebuild _ => 0
  | evaluate _ inner? => (Action.evaluate inner?).nesting

/-- A number of steps that is enough for what is static: matching is the second step of running a
grammar, and evaluating a node the second of an evaluation. -/
def cost (q : Question) : Nat :=
  match q with
  | accepts _ _ _ | evaluate _ _ => 2 * q.nesting - 1
  | apply _ _ | transform _ _ | rebuild _ => 2 * q.nesting

theorem cost_bounds (q : Question) : 2 * q.nesting - 1 ≤ q.cost ∧ q.cost ≤ 2 * q.nesting := by
  cases q <;> simp only [cost] <;> omega

/-- What is less deep costs less. -/
theorem cost_lt {q q' : Question} (h : q'.nesting < q.nesting) : q'.cost < q.cost := by
  obtain ⟨-, hle⟩ := q'.cost_bounds
  obtain ⟨hge, -⟩ := q.cost_bounds
  omega

namespace IsStatic

variable {w : WhenDefault} {q q' : Question} (hq : q.IsStatic w)

include hq

/-- Every question is at least one deep. -/
theorem nesting_pos : 0 < q.nesting := by
  cases q with
  | accepts root? t g => exact g.nesting_pos
  | apply s a => exact a.nesting_pos
  | transform s g => exact g.nesting_pos
  | rebuild t => cases hq
  | evaluate s inner? => exact (Action.evaluate inner?).nesting_pos

theorem cost_pos : 0 < q.cost := by
  have hpos := hq.nesting_pos
  have hge := q.cost_bounds.1
  omega

/-- A static question never asks for recursion outside of a grammar. -/
theorem not_isUnbound : ¬ q.IsUnbound := by
  intro hnone
  cases hnone <;> cases hq

variable (h : q.Asks w q')

include h

/-- What a step asks is static as well. -/
theorem of_asks : q'.IsStatic w := by
  cases h with
  | acceptsBeside hg => exact Grammar.passes_beside hq hg
  | acceptsBeneath hg hc => exact Grammar.passes_beneath hq hg
  | acceptsCondition => exact (Grammar.passes_choose.mp hq).2.1
  | matched => exact hq
  | matchedBeside hg => exact Grammar.passes_beside hq hg
  | transformCondition => exact (Grammar.passes_choose.mp hq).2.1
  | transformBeside hg => exact Grammar.passes_beside hq hg
  | transformBeneath hg hc => exact Grammar.passes_beneath hq hg
  | transformBody ha => exact Grammar.passes_actions hq ha
  | operand ha => exact Action.passes_operands hq ha
  | guard => exact (Action.passes_when.mp hq).2.1
  | guarded hw => exact (Action.passes_when.mp hq).2.1
  | guardedCopy hw =>
      subst hw
      cases (Action.passes_when.mp hq).1
  | algorithm => exact (Action.passes_algorithm.mp hq).2 rfl
  | evaluation => exact hq
  | evaluateInner hc => exact (Action.passes_evaluate.mp hq).2 _ rfl
  | acceptsRoot | transformRoot | applyRoot | copy | rebuildChild | evaluateChild => cases hq

/-- Each step leaves fewer to be made. -/
theorem cost_lt_of_asks : q'.cost < q.cost := by
  cases h with
  | acceptsBeside hg => exact cost_lt (Grammar.nesting_beside hg)
  | acceptsBeneath hg hc => exact cost_lt (Grammar.nesting_beneath hg)
  | acceptsCondition => exact cost_lt (Grammar.nesting_actions List.mem_cons_self)
  -- a grammar is matched as a whole, and this is the cheaper question about it
  | matched => exact Nat.sub_one_lt_of_lt (Nat.mul_pos Nat.two_pos hq.nesting_pos)
  | matchedBeside hg => exact cost_lt (Grammar.nesting_beside hg)
  | transformCondition => exact cost_lt (Grammar.nesting_actions List.mem_cons_self)
  | transformBeside hg => exact cost_lt (Grammar.nesting_beside hg)
  | transformBeneath hg hc => exact cost_lt (Grammar.nesting_beneath hg)
  | transformBody ha => exact cost_lt (Grammar.nesting_actions ha)
  | operand ha => exact cost_lt (Action.nesting_operands ha)
  | guard => exact cost_lt (Nat.lt_one_add_iff.mpr (Nat.le_max_left _ _))
  | guarded hw => exact cost_lt (Nat.lt_one_add_iff.mpr (Nat.le_max_left _ _))
  | algorithm => exact cost_lt (Nat.lt_one_add_iff.mpr (Nat.le_refl _))
  -- so is a node evaluated that an evaluation is about
  | evaluation => exact Nat.sub_one_lt_of_lt (Nat.mul_pos Nat.two_pos hq.nesting_pos)
  | evaluateInner hc => exact cost_lt (Nat.lt_one_add_iff.mpr (Nat.le_refl _))
  | guardedCopy hw => exact absurd (of_asks hq (.guardedCopy hw)) id
  | acceptsRoot | transformRoot | applyRoot | copy | rebuildChild | evaluateChild => cases hq

end IsStatic

end Question

theorem Outcome.compatible_settled : Compatible Outcome Outcome fun o _ => o.Settled where
  own := by
    intro α o ho
    rw [Outcome.lift_eq]
    exact settled_ofStep ho
  bind := by
    intro α β o o' f f' ho hf
    cases o with
    | ok a => exact hf a
    | error err => exact settled_error fun limit herr => ho limit (herr ▸ rfl)

namespace Engine

variable (e : Engine Outcome) (hlib : e.library.Settled)

include hlib

/-- What is static is answered on every level that has as many steps as it costs. -/
theorem settled_level (n : Nat) {q : Question} (hq : q.IsStatic e.config.whenDefault)
    (hcost : q.cost ≤ n) : ((e.level n).answer q).Settled := by
  induction n generalizing q with
  | zero => exact absurd hcost (Nat.not_le.mpr hq.cost_pos)
  | succ n ih =>
      have hsame : e.library.Compared e.library fun o _ => o.Settled :=
        ⟨hlib.function, hlib.leaf⟩
      refine Outcome.compatible_settled.answer_above hsame (e.level n) (e.level n) ?_ ?_
      · intro q' hasks
        have hlt : q'.cost < q.cost := hq.cost_lt_of_asks hasks
        exact ih (hq.of_asks hasks) (Nat.le_of_lt_succ (Nat.lt_of_lt_of_le hlt hcost))
      · intro hnone
        exact absurd hnone hq.not_isUnbound

/-- A limit of twice the nesting is never exceeded by what is static, whatever the node, the state
and the datum are, as long as the user's functions and leaves do not raise its error. -/
theorem static_depth_bound (t : Tree) (state data : Value) :
    (∀ a : Action, a.IsStatic e.config.whenDefault → 2 * a.nesting ≤ e.config.maxDepth →
        (e.apply t state data a).Settled)
      ∧ ∀ g : Grammar, g.IsStatic e.config.whenDefault → 2 * g.nesting ≤ e.config.maxDepth →
        (e.accepts t g).Settled ∧ (e.transform t state data g).Settled := by
  refine ⟨fun a ha hlimit => ?_, fun g hg hlimit => ⟨?_, ?_⟩⟩
  · exact settled_level e hlib e.config.maxDepth (q := .apply ⟨none, t, state, data⟩ a) ha hlimit
  · exact settled_level e hlib e.config.maxDepth (q := .accepts (some g) t g) hg
      (Nat.le_trans (Nat.sub_le _ 1) hlimit)
  · exact settled_level e hlib e.config.maxDepth (q := .transform ⟨some g, t, state, data⟩ g) hg
      hlimit

omit hlib in
/-- Six steps are enough to fold an evaluation over the children, and eight for a case whose body is
a guard. -/
theorem static_depth_bound_fold :
    ((under (.constant .unit) .passThrough 6).apply
        (.node (.user "f") [.node (.user "g") [.leaf (.int 1), .leaf (.int 2)], .leaf (.int 3)])
        .unit .unit
        (.fold (.constant .unit) (.evaluate (some (.leaf "any"))) true)).Settled
      ∧ ((under (.constant .unit) .pattern 8).transform
        (.node (.user "f") [.node (.user "g") [.leaf (.int 1), .leaf (.int 2)], .leaf (.int 3)])
        .unit .unit
        (.switch [⟨.node none [.wildcard, .terminal none],
          [.when (.vararg none [.wildcard] (.terminal none)) none]⟩])).Settled := by
  constructor
  · exact (static_depth_bound (under _ .passThrough 6) (Library.settled_constant .unit) _ _ _).1 _
      (by decide) (by decide)
  · exact ((static_depth_bound (under _ .pattern 8) (Library.settled_constant .unit) _ _ _).2 _
      (by decide) (by decide)).2

end Engine

end TreeGrammar
