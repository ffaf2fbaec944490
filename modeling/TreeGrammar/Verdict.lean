/-! # Verdicts — decisions that can fail

    Combinators over tests that may fail.  Items are tested in order and no item is
    tested once the outcome is known.  The two quantifiers are `List.allM` and
    `List.anyM`; here are the others. -/

namespace TreeGrammar.Verdict

variable {m : Type → Type} [Monad m] {α : Type}

/-- The opposite verdict; a failure stays one. -/
def negate (verdict : m Bool) : m Bool :=
  (!·) <$> verdict

/-- One of two verdicts, as the condition says; the other is not computed. -/
def choose (condition : m Bool) (yes no : Unit → m Bool) : m Bool := do
  if ← condition then yes () else no ()

/-- The first item that passes the test, with its index counted from `start`. -/
def firstFrom (start : Nat) (test : α → m Bool) : List α → m (Option (Nat × α))
  | [] => pure none
  | x :: xs => do
    if ← test x then pure (some (start, x)) else firstFrom (start + 1) test xs

/-- The first item that passes the test, with its index. -/
def first (test : α → m Bool) (items : List α) : m (Option (Nat × α)) :=
  firstFrom 0 test items

end TreeGrammar.Verdict
