/-! # Configuration of the engine -/

namespace TreeGrammar

/-- What `when` without an inner action does with a node it accepts. -/
inductive WhenDefault where
  /-- Run the pattern. -/
  | pattern
  /-- Build the node anew from all its parts. -/
  | passThrough
  deriving DecidableEq, Repr

/-- The settings of an engine. -/
structure Config where
  /-- The greatest number of steps inside one another. -/
  maxDepth : Nat := 512
  whenDefault : WhenDefault := .pattern
  deriving DecidableEq, Repr

end TreeGrammar
