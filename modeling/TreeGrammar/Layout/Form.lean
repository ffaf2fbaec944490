import TreeGrammar.Layout.Doc

/-! # Forms — parenthesised lists

    Everything printed here is an atom or a list in parentheses with an atom at its
    head.  `Form.doc` prints a form as a document in which every list is a group.
    `Form.broken` says the same without documents: a list stands on one line if it and
    the parentheses that close around it end within the width, and otherwise each item
    goes to a line of its own, two columns further in. -/

namespace TreeGrammar.Layout

/-- A styled text. -/
structure Atom where
  style : Style
  text : String
  deriving DecidableEq, Repr

/-- An atom, or a list with its head and items. -/
inductive Form where
  | atom (a : Atom)
  | list (head : Atom) (items : List Form)

namespace Form

/-- The text of an atom as a document. -/
def atomDoc (a : Atom) : Doc :=
  .text a.style a.text

/-- The style of the parentheses of lists that stand in so many others. -/
def parenStyle (depth : Nat) : Style :=
  .paren (Fin.ofNat 256 depth)

mutual
/-- A form as a document, inside so many lists. -/
def doc : Form → (depth : Nat) → Doc
  | atom a, _ => atomDoc a
  | list head items, depth =>
    .group (.cat (.text (parenStyle depth) "(")
      (.cat (.cat (atomDoc head) (.nest 2 (itemsDoc items (depth + 1))))
        (.text (parenStyle depth) ")")))
/-- The items of a list as a document, a line before each. -/
def itemsDoc : List Form → (depth : Nat) → Doc
  | [], _ => .empty
  | item :: items, depth => .cat .line (.cat (doc item depth) (itemsDoc items depth))
end

/-- The pieces of a form printed in a width. -/
def pieces (f : Form) (width : Nat) : List Piece :=
  (f.doc 0).pieces width

mutual
/-- The columns of a form on one line. -/
def flatWidth : Form → Nat
  | atom a => Text.width a.text
  | list head items => Text.width head.text + itemsWidth items + 2
/-- The columns of the items of a list on one line, a space before each. -/
def itemsWidth : List Form → Nat
  | [] => 0
  | item :: items => 1 + flatWidth item + itemsWidth items
end

mutual
/-- The pieces of a form on one line, inside so many lists. -/
def flat : Form → (depth : Nat) → List Piece
  | atom a, _ => [.text a.style a.text]
  | list head items, depth =>
    .text (parenStyle depth) "(" :: .text head.style head.text ::
      (flatItems items (depth + 1) ++ [.text (parenStyle depth) ")"])
/-- The pieces of the items of a list on one line. -/
def flatItems : List Form → (depth : Nat) → List Piece
  | [], _ => []
  | item :: items, depth => .space :: (flat item depth ++ flatItems items depth)
end

mutual
/-- The pieces of a form that starts at a column and has so many parentheses closed behind it. -/
def broken (width : Nat) : Form → (depth column closers : Nat) → List Piece
  | atom a, _, _, _ => [.text a.style a.text]
  | list head items, depth, column, closers =>
    if items.isEmpty ∨ column + flatWidth (list head items) + closers ≤ width then
      flat (list head items) depth
    else
      .text (parenStyle depth) "(" :: .text head.style head.text ::
        (brokenItems width items (depth + 1) (column + 2) (closers + 1)
          ++ [.text (parenStyle depth) ")"])
/-- The pieces of items on lines of their own; the closers stand behind the last. -/
def brokenItems (width : Nat) : List Form → (depth column closers : Nat) → List Piece
  | [], _, _, _ => []
  | item :: items, depth, column, closers =>
    .newline column ::
      (broken width item depth column (if items.isEmpty then closers else 0)
        ++ brokenItems width items depth column closers)
end

/-- The plain text of a form. -/
def text (f : Form) (width : Nat) : String :=
  Piece.plain (f.pieces width)

/-- The text of a form with escape sequences for colours. -/
def colouredText (f : Form) (width : Nat) : String :=
  Piece.coloured (f.pieces width)

end Form

end TreeGrammar.Layout
