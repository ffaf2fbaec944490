import TreeGrammar.Engine.Level

/-! # The engine — matching, selecting and running

    An engine has a configuration and a library of the user's computations.  Each call
    starts at the top: `Engine.level n` is what can be done in `n` nested steps, and a
    call has as many as the configuration allows.  A grammar that is matched or run is
    what `recurse` means inside it; a lone action has no such grammar.  An engine whose
    library only computes is an `Engine Outcome`. -/

namespace TreeGrammar

/-- A configuration and the meaning of the user's names. -/
structure Engine (m : Type → Type) where
  library : Library m
  config : Config := {}

namespace Engine

variable {m : Type → Type} [Monad m] [MonadExcept Error m]

/-- What can be done in so many nested steps. -/
def level (e : Engine m) : Nat → Level m
  | 0 => .exhausted e.config.maxDepth
  | n + 1 => .above e.library e.config.whenDefault fun _ => e.level n

/-- What can be done in one call. -/
def top (e : Engine m) : Level m :=
  e.level e.config.maxDepth

/-- Whether the grammar accepts the tree. -/
def accepts (e : Engine m) (t : Tree) (g : Grammar) : m Bool :=
  e.top.accepts (some g) t g

/-- Which case of a switch, or alternative, accepts the tree first; any other grammar has one. -/
def select (e : Engine m) (t : Tree) (g : Grammar) : m (Option Nat) := do
  match g with
  | .switch cases => return (← e.top.firstCase (some g) t cases).map Prod.fst
  | .any gs => return (← e.top.firstAlternative (some g) t gs).map Prod.fst
  | _ => if ← e.accepts t g then return some 0 else return none

/-- The value of an action. -/
def apply (e : Engine m) (t : Tree) (state data : Value) (a : Action) : m Value :=
  e.top.apply ⟨none, t, state, data⟩ a

/-- The value of a grammar run as an action. -/
def transform (e : Engine m) (t : Tree) (state data : Value) (g : Grammar) : m Value :=
  e.top.transform ⟨some g, t, state, data⟩ g

/-- The tree that a grammar run as an action computes from a tree, with unit state and datum. -/
def transformTree (e : Engine m) (t : Tree) (g : Grammar) : m Tree := do
  Outcome.lift (← e.transform t .unit .unit g).toTree

end Engine

end TreeGrammar
