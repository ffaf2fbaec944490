import TreeGrammar.Proofs.Grammar.Inspection
import TreeGrammar.Proofs.Grammar.Reading

/-! # Nesting — how deep grammars and actions stand in each other

    Beside and beneath a pattern stand others; in its conditions and bodies stand
    actions, and in those further actions and patterns.  `nesting` counts the
    constructors of both on the longest way down.  What stands directly in a grammar or
    an action is nested less deep, and it passes every inspection that the whole does. -/

namespace TreeGrammar

namespace Grammar

/-- The condition or the bodies that stand in the pattern. -/
def actions : Grammar → List Action
  | .choose c _ _ => [c]
  | .switch cases => cases.flatMap Case.body
  | _ => []

end Grammar

namespace Action

/-- The actions whose values the action is made of. -/
def operands : Action → List Action
  | .call function args => function :: args
  | .when _ inner? => inner?.toList
  | .invoke action target state? data? => action :: target :: (state?.toList ++ data?.toList)
  | .fold start step _ => [start, step]
  | .make _ args => args
  | _ => []

end Action

mutual
/-- The number of constructors on the longest way down, those of conditions and bodies included. -/
def Grammar.nesting : Grammar → Nat
  | .wildcard => 1
  | .exact _ => 1
  | .terminal _ => 1
  | .literal _ => 1
  | .node _ gs => 1 + Grammar.nestings gs
  | .vararg _ leading rest => 1 + max rest.nesting (Grammar.nestings leading)
  | .all gs => 1 + Grammar.nestings gs
  | .any gs => 1 + Grammar.nestings gs
  | .except g => 1 + g.nesting
  | .choose c yes no => 1 + max c.nesting (max yes.nesting no.nesting)
  | .switch cases => 1 + Case.nestings cases
  | .recurse => 1
/-- The greatest nesting in a list of grammars. -/
def Grammar.nestings : List Grammar → Nat
  | [] => 0
  | g :: gs => max g.nesting (Grammar.nestings gs)
/-- The greatest nesting of the patterns and bodies in a list of cases. -/
def Case.nestings : List Case → Nat
  | [] => 0
  | ⟨g, body⟩ :: cs => max (max g.nesting (Action.nestings body)) (Case.nestings cs)
/-- The number of constructors on the longest way down, those of patterns included. -/
def Action.nesting : Action → Nat
  | .constant _ => 1
  | .arg _ => 1
  | .child _ => 1
  | .value => 1
  | .passThrough => 1
  | .call function args => 1 + max function.nesting (Action.nestings args)
  | .when g inner? => 1 + max g.nesting (Action.nestingIfAny inner?)
  | .algorithm g => 1 + g.nesting
  | .leaf _ => 1
  | .invoke a target state? data? =>
    1 + max (max a.nesting target.nesting)
      (max (Action.nestingIfAny state?) (Action.nestingIfAny data?))
  | .fold start step _ => 1 + max start.nesting step.nesting
  | .make _ args => 1 + Action.nestings args
  | .evaluate inner? => 1 + Action.nestingIfAny inner?
  | .recurse => 1
/-- The greatest nesting in a list of actions. -/
def Action.nestings : List Action → Nat
  | [] => 0
  | a :: as => max a.nesting (Action.nestings as)
/-- The nesting of an action, if there is one. -/
def Action.nestingIfAny : Option Action → Nat
  | none => 0
  | some a => a.nesting
end

namespace Grammar

variable {g g' : Grammar} {a : Action}

/-- A grammar is itself one deep. -/
theorem nesting_pos (g : Grammar) : 0 < g.nesting := by
  cases g <;> rw [nesting] <;> omega

/-- A grammar is no deeper than the list it is in. -/
theorem nesting_le_nestings {gs : List Grammar} (h : g ∈ gs) : g.nesting ≤ nestings gs := by
  induction h with
  | head gs => exact Nat.le_max_left _ _
  | tail g' _ ih => exact Nat.le_trans ih (Nat.le_max_right _ _)

end Grammar

namespace Action

theorem nesting_pos (a : Action) : 0 < a.nesting := by
  cases a <;> rw [nesting] <;> omega

/-- An action is no deeper than the list it is in. -/
theorem nesting_le_nestings {a : Action} {as : List Action} (h : a ∈ as) :
    a.nesting ≤ nestings as := by
  induction h with
  | head as => exact Nat.le_max_left _ _
  | tail a' _ ih => exact Nat.le_trans ih (Nat.le_max_right _ _)

theorem nesting_le_nestingIfAny {a : Action} {a? : Option Action} (h : a ∈ a?) :
    a.nesting ≤ nestingIfAny a? := by
  obtain rfl := Option.mem_def.mp h
  exact Nat.le_refl _

end Action

/-- The pattern and the body of a case are no deeper than the list the case is in. -/
theorem Case.nesting_le_nestings {c : Case} {cases : List Case} (h : c ∈ cases) :
    max c.pattern.nesting (Action.nestings c.body) ≤ nestings cases := by
  induction cases with
  | nil => cases h
  | cons c' cases ih =>
      obtain ⟨pattern, body⟩ := c'
      rcases List.mem_cons.mp h with rfl | hmem
      · exact Nat.le_max_left _ _
      · exact Nat.le_trans (ih hmem) (Nat.le_max_right _ _)

/-! ## What stands in a grammar or an action is less deep -/

namespace Grammar

variable {g g' : Grammar} {a : Action}

/-- What is asked about the same tree is less deep. -/
theorem nesting_beside (h : g' ∈ g.beside) : g'.nesting < g.nesting := by
  cases g with
  | all gs => exact Nat.lt_one_add_iff.mpr (nesting_le_nestings h)
  | any gs => exact Nat.lt_one_add_iff.mpr (nesting_le_nestings h)
  | except g =>
      obtain rfl := List.mem_singleton.mp h
      exact Nat.lt_one_add_iff.mpr (Nat.le_refl _)
  | choose c yes no =>
      have hbranch : g' = yes ∨ g' = no := by simpa [beside] using h
      rw [nesting]
      rcases hbranch with rfl | rfl <;> omega
  | switch cases =>
      obtain ⟨c, hc, rfl⟩ := List.mem_map.mp h
      exact Nat.lt_one_add_iff.mpr
        (Nat.le_trans (Nat.le_max_left _ _) (Case.nesting_le_nestings hc))
  | _ => cases h

/-- What is asked about the children is less deep. -/
theorem nesting_beneath (h : g' ∈ g.beneath) : g'.nesting < g.nesting := by
  cases g with
  | node tag? gs => exact Nat.lt_one_add_iff.mpr (nesting_le_nestings h)
  | vararg tag? leading rest =>
      rw [nesting]
      rcases List.mem_cons.mp h with rfl | hleading
      · omega
      · have hle : g'.nesting ≤ nestings leading := nesting_le_nestings hleading
        omega
  | _ => cases h

/-- The actions of a grammar are less deep than it. -/
theorem nesting_actions (h : a ∈ g.actions) : a.nesting < g.nesting := by
  cases g with
  | choose c yes no =>
      obtain rfl := List.mem_singleton.mp h
      rw [nesting]
      omega
  | switch cases =>
      obtain ⟨c, hc, ha⟩ := List.mem_flatMap.mp h
      exact Nat.lt_one_add_iff.mpr (Nat.le_trans (Action.nesting_le_nestings ha)
        (Nat.le_trans (Nat.le_max_right _ _) (Case.nesting_le_nestings hc)))
  | _ => cases h

end Grammar

namespace Action

/-- The operands of an action are less deep than it. -/
theorem nesting_operands {a a' : Action} (h : a' ∈ a.operands) : a'.nesting < a.nesting := by
  cases a with
  | call function args =>
      rw [nesting]
      rcases List.mem_cons.mp h with rfl | hargs
      · omega
      · have hle : a'.nesting ≤ nestings args := nesting_le_nestings hargs
        omega
  | when g inner? =>
      have hle : a'.nesting ≤ nestingIfAny inner? :=
        nesting_le_nestingIfAny (Option.mem_toList.mp h)
      rw [nesting]
      omega
  | invoke a target state? data? =>
      have hpart : a' = a ∨ a' = target ∨ a' ∈ state? ∨ a' ∈ data? := by
        simpa [operands] using h
      rw [nesting]
      rcases hpart with rfl | rfl | hstate | hdata
      · omega
      · omega
      · have hle : a'.nesting ≤ nestingIfAny state? := nesting_le_nestingIfAny hstate
        omega
      · have hle : a'.nesting ≤ nestingIfAny data? := nesting_le_nestingIfAny hdata
        omega
  | fold start step reverse =>
      have hpart : a' = start ∨ a' = step := by simpa [operands] using h
      rw [nesting]
      rcases hpart with rfl | rfl <;> omega
  | make tag args => exact Nat.lt_one_add_iff.mpr (nesting_le_nestings h)
  | _ => cases h

end Action

/-! ## What stands in a grammar or an action passes with it -/

section Inspected

variable {k : Inspection}

namespace Grammar

variable {g g' : Grammar} {a : Action} (hg : g.passes k = true)

include hg

/-- What is asked about the same tree is inspected with the grammar. -/
theorem passes_beside (h : g' ∈ g.beside) : g'.passes k = true := by
  cases g with
  | all gs => exact (passes_all.mp hg).2 g' h
  | any gs => exact (passes_any.mp hg).2 g' h
  | except g =>
      obtain rfl := List.mem_singleton.mp h
      exact (passes_except.mp hg).2
  | choose c yes no =>
      obtain ⟨-, -, hyes, hno⟩ := passes_choose.mp hg
      have hbranch : g' = yes ∨ g' = no := by simpa [beside] using h
      rcases hbranch with rfl | rfl
      · exact hyes
      · exact hno
  | switch cases =>
      obtain ⟨c, hc, rfl⟩ := List.mem_map.mp h
      exact (Case.passes_iff.mp ((passes_switch.mp hg).2 c hc)).1
  | _ => cases h

/-- What is asked about the children is inspected with the grammar. -/
theorem passes_beneath (h : g' ∈ g.beneath) : g'.passes k = true := by
  cases g with
  | node tag? gs => exact (passes_node.mp hg).2 g' h
  | vararg tag? leading rest =>
      obtain ⟨-, hleading, hrest⟩ := passes_vararg.mp hg
      rcases List.mem_cons.mp h with rfl | hmem
      · exact hrest
      · exact hleading g' hmem
  | _ => cases h

/-- The actions of a grammar are inspected with it. -/
theorem passes_actions (h : a ∈ g.actions) : a.passes k = true := by
  cases g with
  | choose c yes no =>
      obtain rfl := List.mem_singleton.mp h
      exact (passes_choose.mp hg).2.1
  | switch cases =>
      obtain ⟨c, hc, ha⟩ := List.mem_flatMap.mp h
      exact (Case.passes_iff.mp ((passes_switch.mp hg).2 c hc)).2 a ha
  | _ => cases h

end Grammar

/-- The operands of an action are inspected with it. -/
theorem Action.passes_operands {a a' : Action} (ha : a.passes k = true) (h : a' ∈ a.operands) :
    a'.passes k = true := by
  cases a with
  | call function args =>
      obtain ⟨-, hfunction, hargs⟩ := passes_call.mp ha
      rcases List.mem_cons.mp h with rfl | hmem
      · exact hfunction
      · exact hargs a' hmem
  | when g inner? => exact (passes_when.mp ha).2.2 a' (Option.mem_toList.mp h)
  | invoke a target state? data? =>
      obtain ⟨-, haction, htarget, hstate, hdata⟩ := passes_invoke.mp ha
      have hpart : a' = a ∨ a' = target ∨ a' ∈ state? ∨ a' ∈ data? := by
        simpa [operands] using h
      rcases hpart with rfl | rfl | hmem | hmem
      · exact haction
      · exact htarget
      · exact hstate a' hmem
      · exact hdata a' hmem
  | fold start step reverse =>
      obtain ⟨-, hstart, hstep⟩ := passes_fold.mp ha
      have hpart : a' = start ∨ a' = step := by simpa [operands] using h
      rcases hpart with rfl | rfl
      · exact hstart
      · exact hstep
  | make tag args => exact (passes_make.mp ha).2 a' h
  | _ => cases h

end Inspected

end TreeGrammar
