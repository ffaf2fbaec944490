import TreeGrammar.Proofs.Engine.Recursion

/-! # Duality — negated disjunctions and conjunctions

    A disjunction asks its alternatives in order until one accepts, and the conjunction of
    their negations asks the same ones until one rejects.  So the negation of the one is
    the other, and what fails in the one fails in the other.  Both look at the members
    two steps further down, the one below the disjunction and the other below the
    negations, so the limit is exceeded in the same place as well.  Only without members
    there is nothing to be asked so far down. -/

namespace TreeGrammar

variable {m : Type → Type} [Monad m] [LawfulMonad m] [MonadExcept Error m]

/-- The opposite of a failure is the failure, whatever would follow on it. -/
theorem Verdict.negate_throw [LawfulThrow m] {α : Type} (err : Error) (f : α → m Bool) :
    negate (throw err) = throw err >>= f := by
  rw [negate, LawfulThrow.map_throw, LawfulThrow.throw_bind]

namespace Engine

section Levels

variable [LawfulThrow m] (e : Engine m) {n : Nat} {gs : List Grammar} (h : gs ≠ [] ∨ 2 ≤ n)
  (root? : Option Grammar) (t : Tree)

include h

/-- No alternative is accepted if each of them is rejected. -/
theorem accepts_except_any : (e.level n).accepts root? t (.except (.any gs))
    = (e.level n).accepts root? t (.all (gs.map .except)) := by
  match n, h with
  | 0, _ => rfl
  | 1, h =>
      -- the disjunction is out of reach, and so is the first negation
      obtain ⟨g, gs, rfl⟩ := List.exists_cons_of_ne_nil (h.resolve_right (by decide))
      exact Verdict.negate_throw _ _
  | n + 2, _ =>
      show Verdict.negate (gs.anyM ((e.level n).accepts root? t))
        = (gs.map .except).allM (Level.acceptsStep (e.level n) root? t)
      rw [Verdict.negate_anyM, Verdict.allM_map]
      rfl

/-- Some member is rejected if not all are accepted. -/
theorem accepts_except_all : (e.level n).accepts root? t (.except (.all gs))
    = (e.level n).accepts root? t (.any (gs.map .except)) := by
  match n, h with
  | 0, _ => rfl
  | 1, h =>
      obtain ⟨g, gs, rfl⟩ := List.exists_cons_of_ne_nil (h.resolve_right (by decide))
      exact Verdict.negate_throw _ _
  | n + 2, _ =>
      show Verdict.negate (gs.allM ((e.level n).accepts root? t))
        = (gs.map .except).anyM (Level.acceptsStep (e.level n) root? t)
      rw [Verdict.negate_allM, Verdict.anyM_map]
      rfl

end Levels

/-- A closed grammar is matched as it is below any other. -/
theorem accepts_of_isClosed (e : Engine m) {g : Grammar} (hg : g.IsClosed) (t : Tree) :
    e.accepts t g = e.top.accepts none t g :=
  (e.lexical_level _).accepts hg (some g) t

/-- The negation of a disjunction is the conjunction of the negations, and that of a conjunction the
disjunction of them, with the same errors and at every depth; if there are no members, as long as
two more steps can be made.  Closed members need no grammar in common to recurse into. -/
theorem de_morgan [LawfulThrow m] (e : Engine m) (t : Tree) (gs : List Grammar) :
    (∀ depth root?, gs ≠ [] ∨ depth + 2 ≤ e.config.maxDepth →
        (e.atDepth depth).accepts root? t (.except (.any gs))
            = (e.atDepth depth).accepts root? t (.all (gs.map .except))
          ∧ (e.atDepth depth).accepts root? t (.except (.all gs))
            = (e.atDepth depth).accepts root? t (.any (gs.map .except)))
      ∧ ((∀ g ∈ gs, g.IsClosed) → gs ≠ [] ∨ 2 ≤ e.config.maxDepth →
          e.accepts t (.except (.any gs)) = e.accepts t (.all (gs.map .except))
            ∧ e.accepts t (.except (.all gs)) = e.accepts t (.any (gs.map .except))) := by
  constructor
  · intro depth root? h
    have hsteps : gs ≠ [] ∨ 2 ≤ e.config.maxDepth - depth := h.imp_right (by omega)
    exact ⟨e.accepts_except_any hsteps root? t, e.accepts_except_all hsteps root? t⟩
  · intro hclosed h
    have hnegations : ∀ g ∈ gs.map Grammar.except, g.IsClosed := by
      intro g hg
      obtain ⟨g', hg', rfl⟩ := List.mem_map.mp hg
      exact Grammar.passes_except.mpr ⟨rfl, hclosed g' hg'⟩
    have hany {gs : List Grammar} (hgs : ∀ g ∈ gs, g.IsClosed) : (Grammar.any gs).IsClosed :=
      Grammar.passes_any.mpr ⟨rfl, hgs⟩
    have hall {gs : List Grammar} (hgs : ∀ g ∈ gs, g.IsClosed) : (Grammar.all gs).IsClosed :=
      Grammar.passes_all.mpr ⟨rfl, hgs⟩
    constructor
    · rw [e.accepts_of_isClosed (Grammar.passes_except.mpr ⟨rfl, hany hclosed⟩),
        e.accepts_of_isClosed (hall hnegations)]
      exact e.accepts_except_any h none t
    · rw [e.accepts_of_isClosed (Grammar.passes_except.mpr ⟨rfl, hall hclosed⟩),
        e.accepts_of_isClosed (hany hnegations)]
      exact e.accepts_except_all h none t

/-- The second alternative is a condition without a verdict, behind one that rejects; and no
members at all, where two steps are left of three. -/
theorem de_morgan_condition :
    ([.literal (.int 2), .choose (.leaf "unknown") .wildcard .wildcard, .wildcard]
        : List Grammar) ≠ []
      ∧ (under (.constant .unit) .pattern 4).accepts (.leaf (.int 1))
          (.all [.except (.literal (.int 2)),
            .except (.choose (.leaf "unknown") .wildcard .wildcard), .except .wildcard])
        = .error (.typeMismatch "if" Value.unit.describe)
      ∧ ((under (.constant .unit) .pattern 3).atDepth 1).accepts none (.leaf (.int 1))
          (.except (.all [])) = .ok false := by
  have hmembers : ([.literal (.int 2), .choose (.leaf "unknown") .wildcard .wildcard, .wildcard]
      : List Grammar) ≠ [] := nofun
  refine ⟨hmembers, ?_, ?_⟩
  · obtain ⟨hany, -⟩ := (de_morgan (under (.constant .unit) .pattern 4) (.leaf (.int 1)) _).2
      (by decide) (.inl hmembers)
    exact hany.symm
  · exact ((de_morgan (under (.constant .unit) .pattern 3) (.leaf (.int 1)) []).1 1 none
      (.inr (by decide))).2

end Engine

end TreeGrammar
