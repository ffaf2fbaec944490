import TreeGrammar.Text.Joining

/-! # Width of text in columns

    A text of ASCII characters alone is as wide as it has characters, line breaks and
    other controls included.  Any other text is measured from its end, each character
    in front of those behind it. -/

namespace TreeGrammar.Text

/-- The columns of a text measured from its end, and what it starts with. -/
def measure (cs : List Char) : Int × Tail :=
  cs.foldr (fun c (n, tail) => (n + (tail.step c).1, (tail.step c).2)) (0, ⟨.plain, none⟩)

/-- The columns of a text; inside it a line break counts like any other character. -/
def width (s : String) : Nat :=
  if s.toList.all fun c => c.toNat < 0x80 then s.length else (measure s.toList).1.toNat

end TreeGrammar.Text
