import TreeGrammar.Proofs.Engine.DepthLimit
import TreeGrammar.Proofs.Engine.Failure
import TreeGrammar.Proofs.Engine.Scope

/-! # Recursion — `recurse` means the grammar around it and no other

    What encloses a closed grammar or action is never looked at, so it may as well be
    some grammar; and inside of a grammar `recurse` always has a meaning.  A nested
    algorithm starts a run of its own: it takes the steps that are left and counts them
    from the top, so but for the number in the error of the limit it does the same as
    that run alone. -/

namespace TreeGrammar

open Outcome (exceeded)

namespace Outcome

variable {α : Type}

/-- The second outcome is the first, where the error of one limit may be that of the other. -/
def UpToLimit (limit limit' : Nat) (o o' : Outcome α) : Prop :=
  o' = o ∨ (o = exceeded limit ∧ o' = exceeded limit')

/-- The limit a run reports never matters to what follows on it. -/
theorem congruence_upToLimit (limit limit' : Nat) : Congruence (UpToLimit limit limit') where
  settled := fun _ => Or.inl rfl
  bind := by
    rintro α β o o' f f' (rfl | ⟨rfl, rfl⟩) hf
    · match o' with
      | .ok a => exact hf a
      | .error e => exact Or.inl rfl
    · exact Or.inr ⟨rfl, rfl⟩

end Outcome

open Outcome (UpToLimit congruence_upToLimit)

namespace Engine

/-- What can still be done so many steps inside of a call. -/
def atDepth {m : Type → Type} [Monad m] [MonadExcept Error m] (e : Engine m) (depth : Nat) :
    Level m :=
  e.level (e.config.maxDepth - depth)

variable {lib : Library Outcome} {whenDefault : WhenDefault}

/-- Levels with as many steps give the same outcomes under every limit, but for its number. -/
theorem related_upToLimit (limit limit' n : Nat) :
    Level.Related (UpToLimit limit limit') ((under lib whenDefault limit).level n)
      ((under lib whenDefault limit').level n) := by
  induction n with
  | zero => exact ⟨fun _ _ _ => Or.inr ⟨rfl, rfl⟩, fun _ _ => Or.inr ⟨rfl, rfl⟩,
      fun _ _ => Or.inr ⟨rfl, rfl⟩, fun _ => Or.inr ⟨rfl, rfl⟩, fun _ _ => Or.inr ⟨rfl, rfl⟩⟩
  | succ n ih =>
      have hlib : lib.Related (UpToLimit limit limit') :=
        ⟨fun _ _ => Or.inl rfl, fun _ _ _ _ => Or.inl rfl⟩
      exact ih.above (congruence_upToLimit limit limit') hlib whenDefault

/-- A nested algorithm does what its grammar does alone with the steps that are left. -/
theorem upToLimit_algorithm {limit depth : Nat} (hdepth : depth < limit) (s : Site) (g : Grammar) :
    UpToLimit limit (limit - depth - 1)
      (((under lib whenDefault limit).atDepth depth).apply s (.algorithm g))
      ((under lib whenDefault (limit - depth - 1)).transform s.node s.state s.data g) := by
  have hsteps : limit - depth = limit - depth - 1 + 1 := by omega
  have hnested : ((under lib whenDefault limit).atDepth depth).apply s (.algorithm g)
      = ((under lib whenDefault limit).level (limit - depth - 1)).transform
          { s with root? := some g } g := by
    show ((under lib whenDefault limit).level (limit - depth)).apply s (.algorithm g) = _
    rw [hsteps]
    rfl
  rw [hnested]
  exact (related_upToLimit limit _ _).transform _ g

section Closed

variable {l : Level Outcome} (hl : l.Lexical)

include hl

/-- The grammar around a closed action can be any or none. -/
theorem apply_congr_root {a : Action} (ha : a.IsClosed) (root? root?' : Option Grammar) (t : Tree)
    (state data : Value) : l.apply ⟨root?, t, state, data⟩ a = l.apply ⟨root?', t, state, data⟩ a :=
  (hl.apply ha ⟨root?, t, state, data⟩).trans (hl.apply ha ⟨root?', t, state, data⟩).symm

/-- What a closed grammar computes does not depend on the grammar around it. -/
theorem transform_congr_root {g : Grammar} (hg : g.IsClosed) (root? root?' : Option Grammar)
    (t : Tree) (state data : Value) :
    l.transform ⟨root?, t, state, data⟩ g = l.transform ⟨root?', t, state, data⟩ g :=
  (hl.transform hg ⟨root?, t, state, data⟩).trans (hl.transform hg ⟨root?', t, state, data⟩).symm

/-- What a closed grammar accepts does not depend on the grammar around it. -/
theorem accepts_congr_root {g : Grammar} (hg : g.IsClosed) (root? root?' : Option Grammar)
    (t : Tree) : l.accepts root? t g = l.accepts root?' t g :=
  (hl.accepts hg root? t).trans (hl.accepts hg root?' t).symm

end Closed

/-- A closed grammar or action does the same whatever encloses it; no call, of an action only if it
is closed, fails for want of an enclosing grammar, as long as the user's computations do not; and a
nested algorithm at any depth does what its grammar does alone under the limit that is left, but for
the number of that limit. -/
theorem recursion_is_lexical (e : Engine Outcome) :
    (∀ depth root? root?' t state data,
        (∀ g : Grammar, g.IsClosed →
          (e.atDepth depth).accepts root? t g = (e.atDepth depth).accepts root?' t g
            ∧ (e.atDepth depth).transform ⟨root?, t, state, data⟩ g
              = (e.atDepth depth).transform ⟨root?', t, state, data⟩ g)
          ∧ ∀ a : Action, a.IsClosed → (e.atDepth depth).apply ⟨root?, t, state, data⟩ a
              = (e.atDepth depth).apply ⟨root?', t, state, data⟩ a)
      ∧ (e.library.FailsOnly (· ≠ .unboundRecursion) → ∀ t state data,
          (∀ g, e.accepts t g ≠ .error .unboundRecursion
            ∧ e.select t g ≠ .error .unboundRecursion
            ∧ e.transform t state data g ≠ .error .unboundRecursion)
          ∧ ∀ a : Action, a.IsClosed → e.apply t state data a ≠ .error .unboundRecursion)
      ∧ ∀ depth, depth < e.config.maxDepth → ∀ root? t state data g,
          UpToLimit e.config.maxDepth (e.config.maxDepth - depth - 1)
            ((e.atDepth depth).apply ⟨root?, t, state, data⟩ (.algorithm g))
            ((under e.library e.config.whenDefault (e.config.maxDepth - depth - 1)).transform
              t state data g) := by
  refine ⟨?_, ?_, ?_⟩
  · intro depth root? root?' t state data
    have hlexical : (e.atDepth depth).Lexical := e.lexical_level _
    constructor
    · intro g hg
      exact ⟨accepts_congr_root hlexical hg root? root?' t,
        transform_congr_root hlexical hg root? root?' t state data⟩
    · intro a ha
      exact apply_congr_root hlexical ha root? root?' t state data
  · intro hlib t state data
    have hsteps : ∀ err : Error, err.OfStep → err ≠ .unboundRecursion := by
      rintro err herr rfl
      exact herr
    have htop : e.top.FailsOnly (· ≠ .unboundRecursion) :=
      failsOnly_level hsteps hlib nofun e.config.maxDepth
    constructor
    · intro g
      have hroot : (some g).isSome = true := rfl
      refine ⟨?_, ?_, ?_⟩
      · intro h
        exact htop.accepts hroot t g _ h rfl
      · intro h
        exact failsOnly_select hsteps hlib nofun t g _ h rfl
      · intro h
        exact htop.transform (s := ⟨some g, t, state, data⟩) rfl g _ h rfl
    · intro a ha h
      -- nothing encloses the action, but then some grammar may as well
      have hlexical : e.top.Lexical := e.lexical_level _
      have henclosed : e.top.apply ⟨some .wildcard, t, state, data⟩ a = .error .unboundRecursion :=
        (apply_congr_root hlexical ha (some .wildcard) none t state data).trans h
      exact htop.apply (s := ⟨some .wildcard, t, state, data⟩) rfl a _ henclosed rfl
  · intro depth hdepth root? t state data g
    exact upToLimit_algorithm hdepth ⟨root?, t, state, data⟩ g

/-- A pattern whose condition runs an algorithm of its own, inside of a grammar that would not end;
and a guarded action, in which the algorithm takes the seven steps that are left of eight. -/
theorem recursion_is_lexical_nested :
    ((under (.constant .unit) .pattern 8).atDepth 2).accepts (some (.except .recurse))
        (.node (.user "f") [.leaf (.bool true)])
        (.choose (.fold (.constant .unit) (.algorithm (.switch [⟨.literal (.bool true), [.value]⟩,
          ⟨.recurse, []⟩])) false) .wildcard (.terminal none))
      = ((under (.constant .unit) .pattern 8).atDepth 2).accepts none
        (.node (.user "f") [.leaf (.bool true)])
        (.choose (.fold (.constant .unit) (.algorithm (.switch [⟨.literal (.bool true), [.value]⟩,
          ⟨.recurse, []⟩])) false) .wildcard (.terminal none))
      ∧ (under (.constant .unit) .pattern 8).apply (.leaf (.int 1)) .unit .unit
          (.when (.terminal none) (some (.algorithm .recurse))) ≠ .error .unboundRecursion
      ∧ UpToLimit 8 7
          (((under (.constant .unit) .pattern 8).atDepth 0).apply
            ⟨none, .leaf (.int 1), .unit, .unit⟩ (.algorithm .recurse))
          ((under (.constant .unit) .pattern 7).transform (.leaf (.int 1)) .unit .unit .recurse) := by
  have hlib : (Library.constant .unit).FailsOnly (· ≠ .unboundRecursion) :=
    ⟨fun _ _ => Outcome.failsOnly_ok _, fun _ _ _ _ => Outcome.failsOnly_ok _⟩
  have hlexical := recursion_is_lexical (under (.constant .unit) .pattern 8)
  refine ⟨?_, ?_, ?_⟩
  · exact ((hlexical.1 2 _ _ _ .unit .unit).1 _ (by decide)).1
  · exact (hlexical.2.1 hlib _ .unit .unit).2 _ (by decide)
  · exact hlexical.2.2 0 (by decide) none _ _ _ .recurse

end Engine

end TreeGrammar
