import TreeGrammar.Proofs.Engine.Recursion
import TreeGrammar.Proofs.Engine.Within
import TreeGrammar.Proofs.Verdict

/-! # Bodies that call — a case with arguments is a call

    The body of a case is a list of actions, and two or more are a call of the first
    with the others.  So a case that is built from a function and some arguments does
    what a case does that runs the call as one action, only one step less deep.  With no
    arguments the list has one action.  That is run, and nothing is called.

    Two switches with such cases are compared in every list of cases, and each as what
    `recurse` means inside of it. -/

namespace TreeGrammar

open Outcome (exceeded CutAt congruence_cutAt)

namespace Level

/-! ## Cases with holes -/

/-- The cases of a list, the same one in the place of each that is left out. -/
def plug (cases : List (Option Case)) (c : Case) : List Case :=
  cases.map (·.getD c)

/-- A case that fills the hole stands between those before it and those behind it. -/
theorem plug_append (before after : List Case) (c : Case) :
    plug (before.map some ++ none :: after.map some) c = before ++ c :: after := by
  have hall (l : List Case) : plug (l.map some) c = l := by
    rw [plug, List.map_map]
    exact List.map_id l
  rw [plug, List.map_append, List.map_cons]
  exact congrArg₂ (· ++ c :: ·) (hall before) (hall after)

section Switches

variable {R : ∀ {α : Type}, Outcome α → Outcome α → Prop} (hR : Congruence R)
variable {lo hi : Level Outcome} {lib : Library Outcome} {root? root'? : Option Grammar} {s : Site}
variable {c c' : Case}

include hR

/-- Matching a switch, one step, with related verdicts on each pattern. -/
theorem related_acceptsStep_switch {t : Tree} (cases : List (Option Case))
    (hpattern : ∀ c? : Option Case, R (lo.accepts root? t (c?.getD c).pattern)
      (hi.accepts root'? t (c?.getD c').pattern)) :
    R (acceptsStep lo root? t (.switch (plug cases c)))
      (acceptsStep hi root'? t (.switch (plug cases c'))) := by
  rw [acceptsStep, acceptsStep, plug, plug, Verdict.anyM_map, Verdict.anyM_map]
  exact hR.anyM hpattern cases

/-- Running a switch, one step, with related verdicts on each pattern and related bodies. -/
theorem related_transformStep_switch (root? root'? : Option Grammar) (cases : List (Option Case))
    (hpattern : ∀ c? : Option Case, R (lo.accepts root? s.node (c?.getD c).pattern)
      (hi.accepts root'? s.node (c?.getD c').pattern))
    (hbody : ∀ c? : Option Case, R (caseStep lo lib { s with root? } (c?.getD c))
      (caseStep hi lib { s with root? := root'? } (c?.getD c'))) :
    R (transformStep lo lib { s with root? } (.switch (plug cases c)))
      (transformStep hi lib { s with root? := root'? } (.switch (plug cases c'))) := by
  have hfirst (l : Level Outcome) (root? : Option Grammar) (c : Case) :
      firstCase l root? s.node (plug cases c) = Option.map (Prod.map id (·.getD c))
        <$> Verdict.first (fun c? => l.accepts root? s.node (c?.getD c).pattern) cases :=
    Verdict.firstFrom_map _ _ cases 0
  rw [transformStep, transformStep, hfirst, hfirst, bind_map_left, bind_map_left]
  refine hR.bind (hR.first hpattern cases) fun found? => ?_
  cases found? with
  | none =>
      refine hR.error fun limit h => ?_
      cases h
  | some found => exact hbody found.2

end Switches

end Level

namespace Engine

variable (e : Engine Outcome) {p : Grammar} {f : Action} {args : List Action}

/-- A case with arguments is the call of a case that runs it, one step earlier. -/
theorem cutAt_caseStep_call (hargs : args ≠ []) {n : Nat} {hi : Level Outcome} {s s' : Site}
    (hcall : ∀ k < n, CutAt e.config.maxDepth (Level.callStep (e.level k) e.library s f args)
      (Level.callStep hi e.library s' f args)) :
    CutAt e.config.maxDepth (Level.caseStep (e.level n) e.library s (p.runs (.call f args)))
      (Level.caseStep hi e.library s' (p.calls f args)) := by
  obtain ⟨arg, args, rfl⟩ := List.exists_cons_of_ne_nil hargs
  cases n with
  | zero => exact .inl rfl
  | succ k => exact hcall k k.lt_succ_self

/-- Each of the two switches is matched and run with itself to recurse into, at any depths. -/
theorem relatedWithin_calls (hargs : args ≠ []) (cases : List (Option Case)) {n n' : Nat}
    (hn : n ≤ n') : Level.RelatedWithin (CutAt e.config.maxDepth) (e.level n) (e.level n')
      (.switch (Level.plug cases (p.runs (.call f args))))
      (.switch (Level.plug cases (p.calls f args))) := by
  have hR := congruence_cutAt e.config.maxDepth
  refine e.relatedWithin_level (fun {n n'} hbelow => ?_) hn
  have hsame := hbelow n (Nat.le_refl n)
  have hpattern (t : Tree) (c? : Option Case) :
      CutAt e.config.maxDepth
        ((e.level n).accepts (some (.switch (Level.plug cases (p.runs (.call f args))))) t
          (c?.getD (p.runs (.call f args))).pattern)
        ((e.level n').accepts (some (.switch (Level.plug cases (p.calls f args)))) t
          (c?.getD (p.calls f args)).pattern) := by
    cases c? <;> exact hsame.within.accepts none t _
  refine ⟨fun t => ?_, fun s => ?_⟩
  · exact Level.related_acceptsStep_switch hR cases (hpattern t)
  · refine Level.related_transformStep_switch hR _ _ cases (hpattern s.node) fun c? => ?_
    cases c? with
    | some c => exact hsame.within.caseStep hR (e.library.related_cutAt _) s c
    | none =>
        -- the call is made one step deeper than the other
        refine e.cutAt_caseStep_call hargs fun k hk => ?_
        have hcall := hbelow k (Nat.le_of_lt hk)
        exact hcall.within.callStep hR (e.library.related_cutAt _) s f args

/-- The same with any one grammar to recurse into. -/
theorem cutAt_transform_calls (hargs : args ≠ []) (cases : List (Option Case)) (n : Nat)
    (s : Site) : CutAt e.config.maxDepth
      ((e.level n).transform s (.switch (Level.plug cases (p.runs (.call f args)))))
      ((e.level n).transform s (.switch (Level.plug cases (p.calls f args)))) := by
  have hR := congruence_cutAt e.config.maxDepth
  cases n with
  | zero => exact .inl rfl
  | succ n =>
      have hsame : Level.Related (CutAt e.config.maxDepth) (e.level n) (e.level n) :=
        related_cutAt (Nat.le_refl n)
      refine Level.related_transformStep_switch hR s.root? s.root? cases (fun c? => ?_) fun c? => ?_
      · cases c? <;> exact hsame.accepts s.root? s.node _
      · cases c? with
        | some c => exact hsame.caseStep hR (e.library.related_cutAt _) s c
        | none =>
            refine e.cutAt_caseStep_call hargs fun k hk => ?_
            have hdeeper : Level.Related (CutAt e.config.maxDepth) (e.level k) (e.level n) :=
              related_cutAt (Nat.le_of_lt hk)
            exact hdeeper.callStep hR (e.library.related_cutAt _) s f args

/-- A case built from a function and at least one argument does what running their call does,
unless that is cut short; built from a function alone it runs that and calls nothing. -/
theorem calls_eq_runs_call (p : Grammar) (f : Action) (args : List Action)
    (before after : List Case) :
    (args ≠ [] →
      (∀ t state data, CutAt e.config.maxDepth
        (e.transform t state data (.switch (before ++ p.runs (.call f args) :: after)))
        (e.transform t state data (.switch (before ++ p.calls f args :: after))))
      ∧ ∀ depth s, CutAt e.config.maxDepth
        ((e.atDepth depth).transform s (.switch (before ++ p.runs (.call f args) :: after)))
        ((e.atDepth depth).transform s (.switch (before ++ p.calls f args :: after))))
      ∧ p.calls f [] = p.runs f := by
  refine ⟨fun hargs => ?_, rfl⟩
  rw [← Level.plug_append, ← Level.plug_append]
  refine ⟨fun t state data => ?_, fun depth s => e.cutAt_transform_calls hargs _ _ s⟩
  exact (e.relatedWithin_calls hargs _ (Nat.le_refl _)).transform ⟨none, t, state, data⟩

/-- A function of one argument is called with the node. -/
theorem calls_eq_runs_call_one : [Action.arg .this] ≠ []
    ∧ (under (.constant .unit) .pattern 8).transform (.leaf .unit) .unit .unit
        (.switch [Grammar.wildcard.calls (.constant (.func ⟨"f", some 1, 0, .named "f"⟩))
          [.arg .this]]) = .ok .unit := by
  have hargs : [Action.arg .this] ≠ [] := nofun
  obtain ⟨hroot, -⟩ := (calls_eq_runs_call (under (.constant .unit) .pattern 8) .wildcard
    (.constant (.func ⟨"f", some 1, 0, .named "f"⟩)) [.arg .this] [] []).1 hargs
  exact ⟨hargs, (hroot (.leaf .unit) .unit .unit).eq_ok rfl⟩

/-- A function of no argument is the value of the case, and its call has another. -/
theorem calls_nil_ne_runs_call :
    ∃ f : Func, (under (.constant .unit) .pattern 8).transform (.leaf .unit) .unit .unit
        (.switch [Grammar.wildcard.calls (.constant (.func f)) []]) = .ok (.func f)
      ∧ (under (.constant .unit) .pattern 8).transform (.leaf .unit) .unit .unit
        (.switch [Grammar.wildcard.runs (.call (.constant (.func f)) [])]) = .ok .unit :=
  ⟨⟨"f", some 0, 0, .named "f"⟩, rfl, rfl⟩

end Engine

end TreeGrammar
