import TreeGrammar.Layout.Style
import TreeGrammar.Text.Width

/-! # Documents — text with optional line breaks

    A document is styled text with lines in it that are printed as a space or as a
    break.  Groups decide, from the outside in: a group is printed on one line if all
    of it, and what follows it up to the next line, ends within the width.  In what
    follows, every group counts as broken.  A break goes to the indentation of the
    nests around it. -/

namespace TreeGrammar.Layout

/-- Styled text with optional line breaks. -/
inductive Doc where
  | empty
  | text (style : Style) (s : String)
  | line
  | nest (indent : Nat) (d : Doc)
  | group (d : Doc)
  | cat (a b : Doc)
  deriving Repr

/-- What a printed document consists of. -/
inductive Piece where
  | text (style : Style) (s : String)
  | space
  | newline (indent : Nat)
  deriving DecidableEq, Repr

namespace Doc

/-- The columns of a document on one line. -/
def flatWidth : Doc → Nat
  | empty => 0
  | text _ s => Text.width s
  | line => 1
  | nest _ d => d.flatWidth
  | group d => d.flatWidth
  | cat a b => a.flatWidth + b.flatWidth

/-- The columns before the first line of a document, and whether there is a line. -/
def lead : Doc → Nat × Bool
  | empty => (0, false)
  | text _ s => (Text.width s, false)
  | line => (0, true)
  | nest _ d => d.lead
  | group d => d.lead
  | cat a b =>
    match a.lead with
    | (n, true) => (n, true)
    | (n, false) => let (k, found) := b.lead; (n + k, found)

/-- The columns up to the next line, in the document or after it. -/
def reach (d : Doc) (after : Nat) : Nat :=
  match d.lead with
  | (n, true) => n
  | (n, false) => n + after

/-- The pieces of a document printed from a column, and the column it ends in.  `flat` says that it
stands in a group on one line, and `after` how many columns follow it up to the next line. -/
def print (width : Nat) :
    Doc → (flat : Bool) → (indent after column : Nat) → List Piece × Nat
  | empty, _, _, _, column => ([], column)
  | text style s, _, _, _, column => ([.text style s], column + Text.width s)
  | line, true, _, _, column => ([.space], column + 1)
  | line, false, indent, _, _ => ([.newline indent], indent)
  | nest k d, flat, indent, after, column => d.print width flat (indent + k) after column
  | group d, flat, indent, after, column =>
    d.print width (flat || column + d.flatWidth + after ≤ width) indent after column
  | cat a b, flat, indent, after, column =>
    let (pieces, next) := a.print width flat indent (b.reach after) column
    let (more, last) := b.print width flat indent after next
    (pieces ++ more, last)

/-- The pieces of a whole document. -/
def pieces (d : Doc) (width : Nat) : List Piece :=
  (d.print width false 0 0 0).1

end Doc

namespace Piece

/-- The characters of a piece. -/
def chars : Piece → String
  | text _ s => s
  | space => " "
  | newline indent => String.ofList ('\n' :: List.replicate indent ' ')

/-- A piece with its style set before it and ended after it; white space has none. -/
def ink : Piece → List Ink
  | text style s => [.set style, .text s, .reset]
  | p => [.text p.chars]

/-- The plain text of pieces. -/
def plain (ps : List Piece) : String :=
  String.join (ps.map chars)

/-- The coloured text of pieces. -/
def coloured (ps : List Piece) : String :=
  String.join ((ps.flatMap ink).map Ink.code)

end Piece

end TreeGrammar.Layout
