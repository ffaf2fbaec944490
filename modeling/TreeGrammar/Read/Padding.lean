import TreeGrammar.Text.Blank

/-! # Padding — blanks and comments

    Between the tokens of a text stand blanks and comments.  A comment runs from a
    semicolon up to the end of its line, which is a blank, or of the text. -/

namespace TreeGrammar.Read

/-- Drops the padding at the start of a text, which may start inside a comment. -/
def dropPaddingFrom (inComment : Bool) : List Char → List Char
  | [] => []
  | c :: rest =>
    if inComment then dropPaddingFrom (c != '\n') rest
    else if Text.isBlank c then dropPaddingFrom false rest
    else if c = ';' then dropPaddingFrom true rest
    else c :: rest

/-- Drops the padding at the start of a text. -/
def dropPadding (s : List Char) : List Char :=
  dropPaddingFrom false s

theorem length_dropPaddingFrom_le (inComment : Bool) (s : List Char) :
    (dropPaddingFrom inComment s).length ≤ s.length := by
  fun_induction dropPaddingFrom inComment s with
  | case1 => exact Nat.le_refl _
  | case2 _ _ ih => exact Nat.le_succ_of_le ih
  | case3 _ _ _ _ _ ih => exact Nat.le_succ_of_le ih
  | case4 _ _ _ _ ih => exact Nat.le_succ_of_le ih
  | case5 => exact Nat.le_refl _

/-- Dropping padding makes no text longer. -/
theorem length_dropPadding_le (s : List Char) : (dropPadding s).length ≤ s.length :=
  length_dropPaddingFrom_le false s

end TreeGrammar.Read
