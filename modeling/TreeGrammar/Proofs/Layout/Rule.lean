import TreeGrammar.Proofs.Layout.Spelling

/-! # The rule of layout — what documents print is a recursion on forms

    A document decides its groups from the outside in, and each by what is still to come
    up to the next line.  Of a form nothing can come there but closing parentheses: they
    stand behind a last item, and behind any other item there is a line.  Broken items
    begin lines of their own, so the column of a list is its indentation.  With these two
    the pieces of a printed form are those of `Form.broken`, in every width. -/

namespace TreeGrammar.Layout

namespace Form

open Doc (print_cat)

mutual
/-- A document is as wide as its form on one line. -/
theorem flatWidth_doc (f : Form) (depth : Nat) : (f.doc depth).flatWidth = f.flatWidth := by
  match f with
  | .atom a => rfl
  | .list head items =>
      have hitems : (itemsDoc items (depth + 1)).flatWidth = itemsWidth items :=
        flatWidth_itemsDoc items (depth + 1)
      show 1 + (Text.width head.text + (itemsDoc items (depth + 1)).flatWidth + 1)
        = Text.width head.text + itemsWidth items + 2
      omega
/-- Each item of a list takes a space and its own width. -/
theorem flatWidth_itemsDoc (items : List Form) (depth : Nat) :
    (itemsDoc items depth).flatWidth = itemsWidth items := by
  match items with
  | [] => rfl
  | item :: items =>
      show 1 + ((item.doc depth).flatWidth + (itemsDoc items depth).flatWidth)
        = 1 + flatWidth item + itemsWidth items
      rw [flatWidth_doc item, flatWidth_itemsDoc items, Nat.add_assoc]
end

/-! ## On one line -/

mutual
/-- Inside a group on one line a form is printed flat. -/
theorem print_flat (width : Nat) (f : Form) (depth indent after column : Nat) :
    (f.doc depth).print width true indent after column
      = (f.flat depth, column + f.flatWidth) := by
  match f with
  | .atom a => rfl
  | .list head items =>
      have hend : column + 1 + Text.width head.text + itemsWidth items + 1
          = column + (list head items).flatWidth := by
        rw [flatWidth]
        omega
      rw [print_list, Bool.true_or, printItems_flat width items, hend]
      rfl
/-- On one line, the items of a list follow one another. -/
theorem printItems_flat (width : Nat) (items : List Form) (depth indent after column : Nat) :
    (itemsDoc items depth).print width true indent after column
      = (flatItems items depth, column + itemsWidth items) := by
  match items with
  | [] => rfl
  | item :: items =>
      have hend : column + 1 + item.flatWidth + itemsWidth items
          = column + itemsWidth (item :: items) := by
        rw [itemsWidth]
        omega
      simp only [itemsDoc, Doc.print, print_flat width item, printItems_flat width items, hend]
      rfl
end

/-! ## On several lines -/

/-- What follows an item up to the next line: the closers behind the last one, and otherwise
nothing. -/
theorem reach_itemsDoc (items : List Form) (depth after : Nat) :
    (itemsDoc items depth).reach after = if items.isEmpty then after else 0 := by
  cases items with
  | nil => exact Nat.zero_add after
  | cons item items => rfl

mutual
/-- At its own indentation a form is printed by the rule, with the closers that follow it. -/
theorem print_broken (width : Nat) (f : Form) (depth closers column : Nat) :
    ((f.doc depth).print width false column closers column).1
      = f.broken width depth column closers := by
  match f with
  | .atom a => rfl
  | .list head items =>
      rw [print_list, flatWidth_doc, Bool.false_or, broken]
      by_cases hfits : column + (list head items).flatWidth + closers ≤ width
      · rw [if_pos (Or.inr hfits), decide_eq_true hfits, printItems_flat width items]
        rfl
      · rw [decide_eq_false hfits, printItems_broken width items, Nat.add_comm 1 closers]
        -- without items there is no line, so broken or not it is the same
        cases items with
        | nil => rfl
        | cons item items => rw [if_neg (by simp [hfits])]
/-- Items are printed on lines of their own, wherever the head of their list ends. -/
theorem printItems_broken (width : Nat) (items : List Form)
    (depth closers indent column : Nat) :
    ((itemsDoc items depth).print width false indent closers column).1
      = brokenItems width items depth indent closers := by
  match items with
  | [] => rfl
  | item :: items =>
      rw [itemsDoc, print_cat, print_cat, reach_itemsDoc, brokenItems]
      -- behind the break the column is the indentation again
      show Piece.newline indent ::
          (((item.doc depth).print width false indent _ indent).1
            ++ ((itemsDoc items depth).print width false indent closers _).1) = _
      rw [print_broken width item, printItems_broken width items]
end

/-- A printed form follows the rule, in every width. -/
theorem pieces_eq_broken (f : Form) (width : Nat) : f.pieces width = f.broken width 0 0 0 :=
  print_broken width f 0 0 0

end Form

end TreeGrammar.Layout
