import TreeGrammar.Toml.Alphabet

/-! # Strings of TOML

    A basic string stands between quotation marks and knows escapes; a literal string
    stands between apostrophes and knows none.  Either may be enclosed in three marks
    and then runs over several lines, the first line break being dropped.  In a basic
    one of these, a backslash at the end of a line drops the blanks that follow. -/

namespace TreeGrammar.Toml

/-- The mark of literal strings. -/
def apostrophe : Char := '\x27'

/-- A text read from the start of another, and the rest. -/
abbrev Taken := Option (List Char × List Char)

/-- The characters allowed in a string, given what follows; a carriage return only before a line
feed. -/
def isAllowed (multi : Bool) (c : Char) (rest : List Char) : Bool :=
  isPrintable c || (multi && (c == '\n' || (c == '\r' && rest.head? == some '\n')))

/-- Puts a character before a text that was read. -/
def push (c : Char) (t : Taken) : Taken :=
  t.map fun (cs, rest) => (c :: cs, rest)

/-- The value of a hexadecimal digit. -/
def hexDigit? (c : Char) : Option Nat :=
  if '0' ≤ c ∧ c ≤ '9' then some (c.toNat - '0'.toNat)
  else if 'a' ≤ c ∧ c ≤ 'f' then some (c.toNat - 'a'.toNat + 10)
  else if 'A' ≤ c ∧ c ≤ 'F' then some (c.toNat - 'A'.toNat + 10)
  else none

/-- The character of a code point, if there is one. -/
def charOf? (n : Nat) : Option Char :=
  if n.isValidChar then some (Char.ofNat n) else none

/-- The character of a short escape. -/
def shortEscape? (c : Char) : Option Char :=
  if c = '"' ∨ c = '\\' then some c
  else if c = 'b' then some '\x08'
  else if c = 't' then some '\t'
  else if c = 'n' then some '\n'
  else if c = 'f' then some '\x0c'
  else if c = 'r' then some '\r'
  else if c = 'e' then some '\x1b'
  else none

/-- The number of digits of a numeric escape. -/
def escapeDigits? (c : Char) : Option Nat :=
  if c = 'x' then some 2
  else if c = 'u' then some 4
  else if c = 'U' then some 8
  else none

/-- Where the reader of a basic string stands. -/
inductive Mode where
  | plain
  /-- Behind a backslash. -/
  | escaped
  /-- Inside a numeric escape: the digits still to come, and the value so far. -/
  | hex (left value : Nat)
  /-- In blanks to be dropped, a line break among them or not yet. -/
  | trimming (seen : Bool)

/-- The marks, at most two, that stand before the end of a string behind its closing three. -/
def extraMarks (mark : Char) (rest : List Char) : List Char × List Char :=
  let extra := (rest.take 2).takeWhile (· == mark)
  (extra, rest.drop extra.length)

/-- Whether two marks follow. -/
def twoMarks (mark : Char) (rest : List Char) : Bool :=
  rest.take 2 == [mark, mark]

/-- Reads a basic string up to its end. -/
def basicFrom (multi : Bool) : Mode → List Char → Taken
  | _, [] => none
  | .escaped, c :: rest =>
    match shortEscape? c, escapeDigits? c with
    | some d, _ => push d (basicFrom multi .plain rest)
    | none, some n => basicFrom multi (.hex n 0) rest
    | none, none =>
      if multi && (isSpace c || c == '\n' || c == '\r') then
        basicFrom multi (.trimming (c == '\n')) rest
      else none
  | .hex left value, c :: rest =>
    match hexDigit? c with
    | some d =>
      if left ≤ 1 then
        (charOf? (16 * value + d)).bind fun x => push x (basicFrom multi .plain rest)
      else basicFrom multi (.hex (left - 1) (16 * value + d)) rest
    | none => none
  | .trimming seen, c :: rest =>
    if isSpace c || c == '\n' || (c == '\r' && rest.head? == some '\n') then
      basicFrom multi (.trimming (seen || c == '\n')) rest
    else if !seen then none
    else plainStep c rest
  | .plain, c :: rest => plainStep c rest
where
  plainStep (c : Char) (rest : List Char) : Taken :=
    if c = '"' then
      if !multi then some ([], rest)
      else if twoMarks '"' rest then some (extraMarks '"' (rest.drop 2))
      else push '"' (basicFrom multi .plain rest)
    else if c = '\\' then basicFrom multi .escaped rest
    else if isAllowed multi c rest then push c (basicFrom multi .plain rest)
    else none

/-- Reads a literal string up to its end. -/
def literalFrom (multi : Bool) : List Char → Taken
  | [] => none
  | c :: rest =>
    if c = apostrophe then
      if !multi then some ([], rest)
      else if twoMarks apostrophe rest then some (extraMarks apostrophe (rest.drop 2))
      else push c (literalFrom multi rest)
    else if isAllowed multi c rest then push c (literalFrom multi rest)
    else none

/-- Drops a line break at the start of a text. -/
def dropNewline (s : List Char) : List Char :=
  match s with
  | '\n' :: rest => rest
  | '\r' :: '\n' :: rest => rest
  | _ => s

/-- Reads a string of one line. -/
def lineString? (s : List Char) : Taken :=
  match s with
  | [] => none
  | c :: rest =>
    if c = '"' then basicFrom false .plain rest
    else if c = apostrophe then literalFrom false rest
    else none

/-- Reads a string of any form. -/
def string? (s : List Char) : Taken :=
  match s with
  | [] => none
  | c :: rest =>
    if twoMarks c rest && c == '"' then basicFrom true .plain (dropNewline (rest.drop 2))
    else if twoMarks c rest && c == apostrophe then literalFrom true (dropNewline (rest.drop 2))
    else lineString? s

end TreeGrammar.Toml
