import TreeGrammar.Layout.Form

/-! # Spellings — what a form can look like in any width

    A width decides between a space and a break in front of each item, and nothing
    else.  `Form.Spells` relates a form to every text that such decisions can give:
    atoms as they are, and a gap of blanks in front of each item.  The result is
    `Form.spells_text`: whatever the width, a printed form is one of its spellings. -/

namespace TreeGrammar.Layout

/-- The blanks that a line of a document becomes. -/
inductive Gap : List Char → Prop where
  | space : Gap [' ']
  | newline (indent : Nat) : Gap ('\n' :: List.replicate indent ' ')

namespace Form

mutual
/-- The texts that a form has on one line, on several, or on any mixture. -/
inductive Spells : Form → List Char → Prop where
  | atom (a : Atom) : Spells (.atom a) a.text.toList
  | list (head : Atom) {items : List Form} {s : List Char} :
      ItemsSpell items s →
      Spells (.list head items) ('(' :: (head.text.toList ++ (s ++ [')'])))
/-- The texts that the items of a list have, a gap before each. -/
inductive ItemsSpell : List Form → List Char → Prop where
  | nil : ItemsSpell [] []
  | cons {item : Form} {items : List Form} {gap s rest : List Char} :
      Gap gap → Spells item s → ItemsSpell items rest →
      ItemsSpell (item :: items) (gap ++ (s ++ rest))
end

end Form

/-- The characters of pieces. -/
def Piece.spelling (ps : List Piece) : List Char :=
  ps.flatMap fun p => p.chars.toList

namespace Piece

@[simp] theorem spelling_nil : spelling [] = [] := rfl

@[simp] theorem spelling_cons (p : Piece) (ps : List Piece) :
    spelling (p :: ps) = p.chars.toList ++ spelling ps := rfl

@[simp] theorem spelling_append (ps qs : List Piece) :
    spelling (ps ++ qs) = spelling ps ++ spelling qs :=
  List.flatMap_append

/-- The plain text is the spelling of the pieces. -/
theorem toList_plain (ps : List Piece) : (plain ps).toList = spelling ps := by
  rw [plain, String.toList_join, List.flatMap_map]
  rfl

end Piece

namespace Doc

/-- Printing one document behind another prints the pieces of both. -/
theorem print_cat (width : Nat) (a b : Doc) (flat : Bool) (indent after column : Nat) :
    ((Doc.cat a b).print width flat indent after column).1
      = (a.print width flat indent (b.reach after) column).1
        ++ (b.print width flat indent after
            (a.print width flat indent (b.reach after) column).2).1 :=
  rfl

/-- A line is printed as a gap. -/
theorem gap_print_line (width : Nat) (flat : Bool) (indent after column : Nat) :
    Gap (Piece.spelling (Doc.line.print width flat indent after column).1) := by
  cases flat with
  | true => exact Gap.space
  | false =>
      show Gap ((Piece.newline indent).chars.toList ++ [])
      rw [List.append_nil, Piece.chars, String.toList_ofList]
      exact Gap.newline indent

end Doc

namespace Form

open Doc (print_cat gap_print_line)

/-- A list is printed as its head and its items in parentheses, on one line if it stands on one or
if it fits with what follows it. -/
theorem print_list (width : Nat) (head : Atom) (items : List Form) (depth : Nat) (flat : Bool)
    (indent after column : Nat) :
    ((list head items).doc depth).print width flat indent after column
      = (.text (parenStyle depth) "(" :: .text head.style head.text ::
          (((itemsDoc items (depth + 1)).print width
              (flat || column + ((list head items).doc depth).flatWidth + after ≤ width)
              (indent + 2) (1 + after) (column + 1 + Text.width head.text)).1
            ++ [.text (parenStyle depth) ")"]),
        ((itemsDoc items (depth + 1)).print width
          (flat || column + ((list head items).doc depth).flatWidth + after ≤ width)
          (indent + 2) (1 + after) (column + 1 + Text.width head.text)).2 + 1) :=
  rfl

mutual
/-- Wherever a form stands, its pieces spell it. -/
theorem spells_print (width : Nat) (f : Form) (depth : Nat) (flat : Bool)
    (indent after column : Nat) :
    Spells f (Piece.spelling ((f.doc depth).print width flat indent after column).1) := by
  match f with
  | .atom a =>
      show Spells (.atom a) (a.text.toList ++ [])
      rw [List.append_nil]
      exact Spells.atom a
  | .list head items =>
      simp only [print_list, Piece.spelling_append, Piece.spelling_cons, Piece.spelling_nil,
        Piece.chars, String.reduceToList, List.cons_append, List.nil_append]
      exact Spells.list head (itemsSpell_print width items (depth + 1) _ (indent + 2) _ _)
/-- Wherever items stand, their pieces spell them. -/
theorem itemsSpell_print (width : Nat) (items : List Form) (depth : Nat) (flat : Bool)
    (indent after column : Nat) :
    ItemsSpell items
      (Piece.spelling ((itemsDoc items depth).print width flat indent after column).1) := by
  match items with
  | [] => exact ItemsSpell.nil
  | item :: items =>
      rw [itemsDoc, print_cat, print_cat, Piece.spelling_append, Piece.spelling_append]
      exact ItemsSpell.cons (gap_print_line width flat indent _ _)
        (spells_print width item depth flat indent _ _)
        (itemsSpell_print width items depth flat indent _ _)
end

/-- A printed form is one of its spellings, in every width. -/
theorem spells_text (f : Form) (width : Nat) : Spells f (f.text width).toList := by
  rw [text, Piece.toList_plain]
  exact spells_print width f 0 false 0 0 0

end Form

end TreeGrammar.Layout
