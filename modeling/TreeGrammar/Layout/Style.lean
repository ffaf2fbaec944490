/-! # Styles — how printed atoms are coloured

    Each atom of a printed form has a style, and a style has a fixed escape sequence
    for terminals.  Parentheses take one of six colours in turn by their depth, which
    is counted in eight bits. -/

namespace TreeGrammar.Layout

/-- The role of an atom in a printed form. -/
inductive Style where
  /-- The signs for anything. -/
  | punct
  /-- A parenthesis, with its depth. -/
  | paren (depth : Fin 256)
  /-- The heads of grammars and actions. -/
  | keyword
  /-- The tags of operators. -/
  | operator
  /-- User tags, symbols and names. -/
  | ident
  /-- All other literals. -/
  | literal
  deriving DecidableEq, Repr

/-- The colours of terminals in use. -/
inductive Colour where
  | red
  | green
  | yellow
  | blue
  | magenta
  | cyan
  | white
  deriving DecidableEq, Repr

/-- The number of a colour in an escape sequence. -/
def Colour.code : Colour → Char
  | .red => '1'
  | .green => '2'
  | .yellow => '3'
  | .blue => '4'
  | .magenta => '5'
  | .cyan => '6'
  | .white => '7'

/-- What a style looks like. -/
structure Look where
  bold : Bool
  dimmed : Bool
  colour? : Option Colour
  deriving DecidableEq, Repr

/-- The colour of a parenthesis. -/
def parenColour (depth : Fin 256) : Colour :=
  match depth.val % 6 with
  | 0 => .blue
  | 1 => .green
  | 2 => .white
  | 3 => .yellow
  | 4 => .red
  | _ => .magenta

/-- The look of a style. -/
def Style.look : Style → Look
  | .punct => ⟨false, true, none⟩
  | .paren depth => ⟨false, true, some (parenColour depth)⟩
  | .keyword => ⟨true, false, some .cyan⟩
  | .operator => ⟨true, false, some .yellow⟩
  | .ident => ⟨true, false, some .green⟩
  | .literal => ⟨false, false, some .magenta⟩

/-- The escape sequence that ends all styles. -/
def resetCode : String := "\x1b[0m"

/-- The escape sequence of a look, which first ends any other. -/
def Look.code (l : Look) : String :=
  resetCode
    ++ (if l.bold then "\x1b[1m" else "")
    ++ (if l.dimmed then "\x1b[2m" else "")
    ++ (match l.colour? with
      | some c => String.ofList ['\x1b', '[', '3', c.code, 'm']
      | none => "")

/-- A part of a coloured text. -/
inductive Ink where
  | set (style : Style)
  | reset
  | text (s : String)
  deriving DecidableEq, Repr

/-- The characters of a part of a coloured text. -/
def Ink.code : Ink → String
  | .set style => style.look.code
  | .reset => resetCode
  | .text s => s

end TreeGrammar.Layout
