/-! # Ranges of characters

    A property of characters is a list of ranges of code points, in ascending order
    and without overlap, each with its first and its last member. -/

namespace TreeGrammar.Text

/-- Whether a character lies in one of some ascending ranges. -/
def inRanges : List (Nat × Nat) → Char → Bool
  | [], _ => false
  | (first, last) :: rest, c => first ≤ c.toNat && (c.toNat ≤ last || inRanges rest c)

end TreeGrammar.Text
