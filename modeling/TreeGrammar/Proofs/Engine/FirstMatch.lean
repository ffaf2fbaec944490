import TreeGrammar.Proofs.Engine.MatchAndRun
import TreeGrammar.Proofs.Engine.Scope

/-! # First match — one law for matching, selecting and running

    A switch and a disjunction are read in three places.  Matching asks whether any case
    accepts the node, selecting which one does first, and running runs its body.  All
    three test the cases in the same order and stop at the same place, but selecting
    does so one step earlier than the others.  So the answers agree up to the limit,
    and the cases behind the first that accepts are never looked at. -/

namespace TreeGrammar

open Outcome (exceeded CutAt congruence_cutAt)

namespace Outcome.CutAt

variable {α β : Type} {limit : Nat} {f : α → β} {o : Outcome α}

/-- A value that was not cut short is computed from a value. -/
theorem of_ok_map {b : β} (h : CutAt limit (.ok b) (f <$> o)) : ∃ a, o = .ok a ∧ f a = b := by
  rcases h with hcut | heq
  · cases hcut
  · match o, heq with
    | .ok a, heq => exact ⟨a, rfl, Except.ok.inj heq⟩

theorem of_error_map {e : Error} (h : CutAt limit (.error e) (f <$> o))
    (he : e ≠ .depthExceeded limit) : o = .error e := by
  rcases h with hcut | heq
  · exact absurd (Except.error.inj hcut) he
  · match o, heq with
    | .error e', heq => exact congrArg Except.error (Except.error.inj heq)

end Outcome.CutAt

/-- The cases of a grammar that picks one; an alternative is a case that runs itself. -/
def Grammar.cases? : Grammar → Option (List Case)
  | .switch cases => some cases
  | .any gs => some (gs.map Grammar.itself)
  | _ => none

namespace Level

section Readings

variable {m : Type → Type} [Monad m] [MonadExcept Error m]

/-- What the body of a case does on this level: the pattern run as an action, the only action, or
the call. -/
def body (l : Level m) (s : Site) (c : Case) : m Value :=
  match c.body with
  | [] => l.transform s c.pattern
  | [a] => l.apply s a
  | function :: args => l.apply s (.call function args)

variable [LawfulMonad m] {l : Level m} {g : Grammar} {cases : List Case}

omit [MonadExcept Error m] in
/-- Alternatives are found as cases without bodies are. -/
theorem firstCase_itself (root? : Option Grammar) (t : Tree) (gs : List Grammar) :
    l.firstCase root? t (gs.map Grammar.itself)
      = Option.map (Prod.map id Grammar.itself) <$> l.firstAlternative root? t gs :=
  Verdict.firstFrom_map (fun c : Case => l.accepts root? t c.pattern) Grammar.itself gs 0

/-- A grammar that picks a case accepts what a case accepts. -/
theorem acceptsStep_eq_isSome (hcases : g.cases? = some cases) (root? : Option Grammar)
    (t : Tree) : acceptsStep l root? t g = Option.isSome <$> l.firstCase root? t cases := by
  cases g with
  | switch cs =>
      cases hcases
      exact (Verdict.isSome_first _ _).symm
  | any gs =>
      cases hcases
      have hforget : Option.isSome ∘ Option.map (Prod.map id Grammar.itself)
          = (Option.isSome : Option (Nat × Grammar) → Bool) :=
        funext fun _ => Option.isSome_map
      rw [firstCase_itself, ← comp_map, hforget]
      exact (Verdict.isSome_first _ _).symm
  | _ => cases hcases

/-- Running a grammar that picks a case is running the switch of its cases. -/
theorem transformStep_eq_switch (hcases : g.cases? = some cases) (lib : Library m) (s : Site) :
    transformStep l lib s g = transformStep l lib s (.switch cases) := by
  cases g with
  | switch cs =>
      cases hcases
      rfl
  | any gs =>
      cases hcases
      rw [transformStep, transformStep, firstCase_itself, bind_map_left]
      congr 1
      funext found?
      cases found? <;> rfl
  | _ => cases hcases

end Readings

section Prefix

variable {l : Level Outcome} (hl : l.Lexical) {cases : List Case} {k : Nat}
  (hclosed : ∀ c ∈ cases.take k, c.IsClosed)

include hl hclosed

/-- Where the search ends among closed cases, neither those behind nor what encloses them matter. -/
theorem firstCase_eq_take {t : Tree} (hends : l.firstCase none t (cases.take k) ≠ .ok none)
    (root? : Option Grammar) :
    l.firstCase root? t cases = l.firstCase none t (cases.take k) := by
  rw [← hl.firstCase root? t hclosed] at hends ⊢
  calc l.firstCase root? t cases
      = l.firstCase root? t (cases.take k ++ cases.drop k) := by rw [List.take_append_drop]
    _ = l.firstCase root? t (cases.take k) := Verdict.firstFrom_append hends

/-- A step sees no case behind the one that is found. -/
theorem transformStep_eq_take {g : Grammar} (hcases : g.cases? = some cases)
    (lib : Library Outcome) {s : Site}
    (hends : l.firstCase none s.node (cases.take k) ≠ .ok none) :
    transformStep l lib s g = transformStep l lib s.unbound (.switch (cases.take k)) := by
  rw [transformStep_eq_switch hcases, transformStep, transformStep,
    firstCase_eq_take hl hclosed hends]
  refine Verdict.firstFrom_bind_congr (fun c : Case => l.accepts none s.node c.pattern) 0
    (fun c hc i => ?_) rfl
  exact hl.caseStep s lib (hclosed c hc)

end Prefix

end Level

namespace Engine

section Select

variable {m : Type → Type} [Monad m] [LawfulMonad m] [MonadExcept Error m]

/-- A selection is the index of the case that is found. -/
theorem select_eq_firstCase {g : Grammar} {cases : List Case} (hcases : g.cases? = some cases)
    (e : Engine m) (t : Tree) :
    e.select t g = Option.map Prod.fst <$> e.top.firstCase (some g) t cases := by
  cases g with
  | switch cs =>
      cases hcases
      exact bind_pure_comp _ _
  | any gs =>
      cases hcases
      have hindex : Option.map Prod.fst ∘ Option.map (Prod.map id Grammar.itself)
          = (Option.map Prod.fst : Option (Nat × Grammar) → Option Nat) := by
        funext found?
        cases found? <;> rfl
      rw [Level.firstCase_itself, ← comp_map, hindex]
      exact bind_pure_comp _ _
  | _ => cases hcases

/-- A grammar that picks no case is selected where it accepts. -/
theorem isSome_select {g : Grammar} (hcases : g.cases? = none) (e : Engine m) (t : Tree) :
    Option.isSome <$> e.select t g = e.accepts t g := by
  have hmatched : Option.isSome <$> (do if ← e.accepts t g then return some 0 else return none)
      = e.accepts t g := by
    rw [map_bind]
    conv => rhs; rw [← bind_pure (e.accepts t g)]
    congr 1
    funext b
    cases b with
    | true => exact map_pure _ _
    | false => exact map_pure _ _
  cases g with
  | switch cs => cases hcases
  | any gs => cases hcases
  | _ => exact hmatched

end Select

section Levels

variable (e : Engine Outcome) {g : Grammar} {cases : List Case} {n i : Nat}

/-- On the next level the search for a case ends in the same way, unless it was cut short. -/
theorem cutAt_firstCase (n : Nat) (root? : Option Grammar) (t : Tree) (cases : List Case) :
    CutAt e.config.maxDepth ((e.level n).firstCase root? t cases)
      ((e.level (n + 1)).firstCase root? t cases) :=
  (related_cutAt (Nat.le_succ n)).firstCase (congruence_cutAt _) root? t cases

/-- The matcher tells whether something is selected, unless it is cut short one step earlier. -/
theorem cutAt_isSome_select (t : Tree) (g : Grammar) :
    CutAt e.config.maxDepth (e.accepts t g) (Option.isSome <$> e.select t g) := by
  have hfirst {cases : List Case} (hcases : g.cases? = some cases) :
      ∀ n, CutAt e.config.maxDepth ((e.level n).accepts (some g) t g)
        (Option.isSome <$> (e.level n).firstCase (some g) t cases) := by
    intro n
    cases n with
    | zero => exact Or.inl rfl
    | succ n =>
        show CutAt _ (Level.acceptsStep (e.level n) (some g) t g) _
        rw [Level.acceptsStep_eq_isSome hcases]
        exact (congruence_cutAt _).bind (e.cutAt_firstCase n _ t cases) fun _ => Or.inr rfl
  cases hcases : g.cases? with
  | none => exact Or.inr (isSome_select hcases e t)
  | some cases =>
      have hindex : Option.isSome ∘ Option.map Prod.fst
          = (Option.isSome : Option (Nat × Case) → Bool) := funext fun _ => Option.isSome_map
      rw [select_eq_firstCase hcases, ← comp_map, hindex]
      exact hfirst hcases e.config.maxDepth

/-- Running a case, one step, does what its body does on the level above. -/
theorem cutAt_body (n : Nat) (s : Site) (c : Case) :
    CutAt e.config.maxDepth (Level.caseStep (e.level n) e.library s c)
      ((e.level (n + 1)).body s c) := by
  have hdeeper : Level.Related (CutAt e.config.maxDepth) (e.level n) (e.level (n + 1)) :=
    related_cutAt (Nat.le_succ n)
  obtain ⟨pattern, body⟩ := c
  match body with
  | [] => exact hdeeper.transform s pattern
  | [a] => exact hdeeper.apply s a
  -- a call makes its own step, so this is the same one
  | function :: arg :: args => exact Or.inr rfl

/-- Running does what the body of the first case does, unless it is cut short. -/
theorem cutAt_body_of_firstCase (hcases : g.cases? = some cases) {s : Site} {c : Case}
    (hfirst : (e.level n).firstCase s.root? s.node cases = .ok (some (i, c))) :
    CutAt e.config.maxDepth ((e.level n).transform s g) ((e.level n).body s c) := by
  cases n with
  | zero => exact Or.inl rfl
  | succ n =>
      show CutAt _ (Level.transformStep (e.level n) e.library s g) _
      rw [Level.transformStep_eq_switch hcases, Level.transformStep]
      rcases e.cutAt_firstCase n s.root? s.node cases with hcut | heq
      · rw [hcut]
        exact Or.inl rfl
      · rw [← heq, hfirst]
        exact e.cutAt_body n s c

/-- Where the search ends on a level, it ends no later on the level below. -/
theorem firstCase_ends {t : Tree} (hends : (e.level (n + 1)).firstCase none t cases ≠ .ok none) :
    (e.level n).firstCase none t cases ≠ .ok none := by
  intro hnone
  rcases e.cutAt_firstCase n none t cases with hcut | heq
  · rw [hnone] at hcut
    cases hcut
  · exact hends (heq.trans hnone)

end Levels

/-! ## The cases behind the first that accepts -/

section Prefix

variable {e : Engine Outcome} {g g' : Grammar} {cases cases' : List Case} {n k : Nat} {t : Tree}
  (hcases : g.cases? = some cases) (hcases' : g'.cases? = some cases')
  (hsame : cases'.take k = cases.take k) (hclosed : ∀ c ∈ cases.take k, c.IsClosed)

include hcases hcases' hsame hclosed

/-- Whether a grammar accepts does not depend on the cases behind the one that is found. -/
theorem accepts_of_take_eq (hends : (e.level n).firstCase none t (cases.take k) ≠ .ok none) :
    (e.level n).accepts (some g') t g' = (e.level n).accepts (some g) t g := by
  cases n with
  | zero => rfl
  | succ n =>
      have hlower := e.firstCase_ends hends
      show Level.acceptsStep (e.level n) (some g') t g' = Level.acceptsStep (e.level n) (some g) t g
      rw [Level.acceptsStep_eq_isSome hcases, Level.acceptsStep_eq_isSome hcases',
        Level.firstCase_eq_take (e.lexical_level n) hclosed hlower,
        Level.firstCase_eq_take (e.lexical_level n) (hsame ▸ hclosed) (hsame ▸ hlower), hsame]

/-- Nor does what it computes. -/
theorem transform_of_take_eq (state data : Value)
    (hends : (e.level n).firstCase none t (cases.take k) ≠ .ok none) :
    (e.level n).transform ⟨some g', t, state, data⟩ g'
      = (e.level n).transform ⟨some g, t, state, data⟩ g := by
  cases n with
  | zero => rfl
  | succ n =>
      have hlower := e.firstCase_ends hends
      show Level.transformStep (e.level n) e.library ⟨some g', t, state, data⟩ g'
        = Level.transformStep (e.level n) e.library ⟨some g, t, state, data⟩ g
      rw [Level.transformStep_eq_take (e.lexical_level n) hclosed hcases e.library hlower,
        Level.transformStep_eq_take (e.lexical_level n) (hsame ▸ hclosed) hcases' e.library
          (hsame ▸ hlower), hsame]
      rfl

/-- Nor does which case it selects. -/
theorem select_of_take_eq (hends : e.top.firstCase none t (cases.take k) ≠ .ok none) :
    e.select t g' = e.select t g := by
  have htop : e.top.Lexical := e.lexical_level _
  rw [select_eq_firstCase hcases, select_eq_firstCase hcases',
    Level.firstCase_eq_take htop hclosed hends,
    Level.firstCase_eq_take htop (hsame ▸ hclosed) (hsame ▸ hends), hsame]

end Prefix

/-! ## The law -/

/-- The number that is selected is the place of the first case. -/
theorem firstCase_of_select {e : Engine Outcome} {t : Tree} {g : Grammar} {cases : List Case}
    {i : Nat} (hcases : g.cases? = some cases) (h : e.select t g = .ok (some i)) :
    ∃ c, e.top.firstCase (some g) t cases = .ok (some (i, c)) := by
  rw [select_eq_firstCase hcases] at h
  match hfirst : e.top.firstCase (some g) t cases with
  | .error err =>
      rw [hfirst] at h
      cases h
  | .ok none =>
      rw [hfirst] at h
      cases h
  | .ok (some (j, c)) =>
      rw [hfirst] at h
      cases h
      exact ⟨c, rfl⟩

/-- Where the matcher has a verdict or an error of its own, selecting has the same; the selected case
is the first whose pattern accepts, running does what its body does, and the node is refused where
no case is selected; and if `recurse` stands in no case up to the selected one, those behind it can
be any others. -/
theorem first_match (e : Engine Outcome) (t : Tree) (g : Grammar) :
    (∀ b, e.accepts t g = .ok b → ∃ o, e.select t g = .ok o ∧ o.isSome = b)
      ∧ (∀ err, e.accepts t g = .error err → err ≠ .depthExceeded e.config.maxDepth →
          e.select t g = .error err)
      ∧ (∀ cases i, g.cases? = some cases → e.select t g = .ok (some i) →
          ∃ c, cases[i]? = some c
            ∧ e.top.accepts (some g) t c.pattern = .ok true
            ∧ (∀ j c', j < i → cases[j]? = some c' →
                e.top.accepts (some g) t c'.pattern = .ok false)
            ∧ (∀ state data, CutAt e.config.maxDepth (e.transform t state data g)
                (e.top.body ⟨some g, t, state, data⟩ c))
            ∧ ((∀ c ∈ cases.take (i + 1), c.IsClosed) →
                ∀ g' cases', g'.cases? = some cases' →
                  cases'.take (i + 1) = cases.take (i + 1) →
                  e.accepts t g' = e.accepts t g ∧ e.select t g' = e.select t g
                    ∧ ∀ state data, e.transform t state data g' = e.transform t state data g))
      ∧ (e.select t g = .ok none → ∀ state data,
          e.transform t state data g = .error (.noMatch t.tag t.arity)
            ∨ e.transform t state data g = exceeded e.config.maxDepth) := by
  have hverdict : CutAt e.config.maxDepth (e.accepts t g) (Option.isSome <$> e.select t g) :=
    e.cutAt_isSome_select t g
  refine ⟨?_, ?_, ?_, ?_⟩
  · intro b hb
    rw [hb] at hverdict
    exact hverdict.of_ok_map
  · intro err herr hother
    rw [herr] at hverdict
    exact hverdict.of_error_map hother
  · intro cases i hcases hselect
    obtain ⟨c, hfirst⟩ := firstCase_of_select hcases hselect
    obtain ⟨hc, haccepts, hbefore⟩ := Verdict.of_first_eq_some hfirst
    refine ⟨c, hc, haccepts, hbefore, ?_, ?_⟩
    · intro state data
      exact e.cutAt_body_of_firstCase (s := ⟨some g, t, state, data⟩) hcases hfirst
    · intro hclosed g' cases' hcases' hsame
      have hends : e.top.firstCase none t (cases.take (i + 1)) ≠ .ok none := by
        have htop : e.top.Lexical := e.lexical_level _
        rw [← htop.firstCase (some g) t hclosed, Level.firstCase, Verdict.first_take hfirst]
        exact nofun
      exact ⟨accepts_of_take_eq hcases hcases' hsame hclosed hends,
        select_of_take_eq hcases hcases' hsame hclosed hends,
        fun state data => transform_of_take_eq hcases hcases' hsame hclosed state data hends⟩
  · intro hnone state data
    have hagree : Agree e.config.maxDepth t (e.accepts t g) (e.transform t state data g) :=
      agrees_level e.config.maxDepth ⟨some g, t, state, data⟩ g
    rw [hnone] at hverdict
    rcases hverdict with hcut | heq
    · rw [hcut] at hagree
      exact Or.inr (or_self_iff.mp hagree.of_error)
    · rw [← heq] at hagree
      exact hagree.of_rejected

/-- A second case that wins over a `recurse` without end, which can as well be a condition without
a verdict; such a condition in front; and alternatives that all reject. -/
theorem first_match_second :
    (∃ o, (under (.constant .unit) .pattern 3).select (.leaf (.int 1))
        (.switch [⟨.literal (.int 2), []⟩, ⟨.terminal none, [.value]⟩, ⟨.recurse, []⟩]) = .ok o
        ∧ o.isSome = true)
      ∧ (under (.constant .unit) .pattern 3).transform (.leaf (.int 1)) .unit .unit
          (.switch [⟨.literal (.int 2), []⟩, ⟨.terminal none, [.value]⟩,
            ⟨.choose (.leaf "unknown") .wildcard .wildcard, []⟩])
        = (under (.constant .unit) .pattern 3).transform (.leaf (.int 1)) .unit .unit
          (.switch [⟨.literal (.int 2), []⟩, ⟨.terminal none, [.value]⟩, ⟨.recurse, []⟩])
      ∧ (under (.constant .unit) .pattern 3).select (.leaf (.int 1))
          (.any [.choose (.leaf "unknown") .wildcard .wildcard, .wildcard])
        = .error (.typeMismatch "if" Value.unit.describe)
      ∧ ((under (.constant .unit) .pattern 3).transform (.leaf (.int 1)) .unit .unit
            (.any [.literal (.int 2), .except .wildcard])
          = .error (.noMatch (.builtin .terminal) 0)
        ∨ (under (.constant .unit) .pattern 3).transform (.leaf (.int 1)) .unit .unit
            (.any [.literal (.int 2), .except .wildcard]) = exceeded 3) := by
  refine ⟨?_, ?_, ?_, ?_⟩
  · exact (first_match _ _ _).1 true rfl
  · obtain ⟨c, -, -, -, -, hothers⟩ := (first_match (under (.constant .unit) .pattern 3)
      (.leaf (.int 1)) (.switch [⟨.literal (.int 2), []⟩, ⟨.terminal none, [.value]⟩,
        ⟨.recurse, []⟩])).2.2.1 _ 1 rfl rfl
    refine (hothers (by decide) _ _ rfl ?_).2.2 .unit .unit
    rfl
  · exact (first_match _ _ _).2.1 _ rfl nofun
  · exact (first_match _ _ _).2.2.2 rfl .unit .unit

end Engine

end TreeGrammar
