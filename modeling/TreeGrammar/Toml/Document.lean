import TreeGrammar.Toml.Table

/-! # Documents of TOML

    A document is read line by line into statements: a key with its value, or the
    header of a table.  The statements are then carried out one after the other on the
    table of the document.  Brackets and braces nest at most eighty deep, and a path
    has at most eighty keys.  Between braces, line breaks and comments may stand
    wherever spaces may, but not inside a path. -/

namespace TreeGrammar.Toml

/-- A reader of something at the start of a text. -/
abbrev Reader (α : Type) := List Char → Option (α × List Char)

/-- Drops spaces and tabs. -/
def dropSpaces (s : List Char) : List Char :=
  s.dropWhile isSpace

/-- Drops a comment; it may hold no control character but the tab. -/
def dropComment (s : List Char) : List Char :=
  match s with
  | '#' :: rest => rest.dropWhile isPrintable
  | _ => s

/-- Drops what may end a line; there must be a line break or the end of the text. -/
def endLine? (s : List Char) : Option (List Char) :=
  match dropComment (dropSpaces s) with
  | [] => some []
  | '\n' :: rest => some rest
  | '\r' :: '\n' :: rest => some rest
  | _ => none

/-- Drops spaces, comments and line breaks. -/
def dropLines (s : List Char) : List Char :=
  match dropSpaces s with
  | [] => []
  | c :: rest =>
    match endLine? (c :: rest) with
    | some rest' => if rest'.length < s.length then dropLines rest' else c :: rest
    | none => c :: rest
termination_by s.length

/-- Reads one key. -/
def key? : Reader (List Char) := fun s =>
  let bare := s.takeWhile inBareKey
  if bare.isEmpty then lineString? s else some (bare, s.dropWhile inBareKey)

/-- Reads keys with points between them: those before the last, and the last. -/
def keys? (s : List Char) : Option ((List (List Char) × List Char) × List Char) :=
  match key? (dropSpaces s) with
  | none => none
  | some (k, rest) =>
    match dropSpaces rest with
    | '.' :: more =>
      if more.length < s.length then
        (keys? more).map fun ((ks, last), rest) => ((k :: ks, last), rest)
      else none
    | rest => some (([], k), rest)
termination_by s.length

/-- The greatest nesting of brackets and braces, and the greatest number of keys in a path. -/
def nestingLimit : Nat := 80

/-- Reads a path of keys that is not too long. -/
def path? : Reader (List (List Char) × List Char) := fun s =>
  (keys? s).filter fun ((ks, _), _) => ks.length < nestingLimit

/-- Reads items with commas between them up to a closing sign; a comma may follow the last. -/
def itemsUntil {α : Type} (close : Char) (item? : Reader α) (s : List Char) :
    Option (List α × List Char) :=
  match dropLines s with
  | [] => none
  | c :: rest =>
    if c = close then some ([], rest)
    else
      match item? (c :: rest) with
      | none => none
      | some (x, rest) =>
        match dropLines rest with
        | [] => none
        | c :: rest =>
          if c = close then some ([x], rest)
          else if c = ',' ∧ rest.length < s.length then
            (itemsUntil close item? rest).map fun (xs, rest) => (x :: xs, rest)
          else none
termination_by s.length

/-- Reads a path, the sign of equality and a value, with gaps between them. -/
def pair? (dropGap : List Char → List Char) (value? : Reader Item) :
    Reader ((List (List Char) × List Char) × Item) := fun s =>
  match path? s with
  | some (keys, rest) =>
    match dropGap rest with
    | '=' :: rest => (value? (dropGap rest)).map fun (v, rest) => ((keys, v), rest)
    | _ => none
  | none => none

/-- The table in braces that pairs make. -/
def tableOf? (pairs : List ((List (List Char) × List Char) × Item)) : Option Item :=
  (pairs.foldlM (fun t p => assign p.1.1 p.1.2 p.2 t.1 t.2) (Origin.header, ([] : Entries))).map
    fun (_, es) => .table .braces es

/-- The value of a run of characters. -/
def runValue? (run : List Char) : Option Item :=
  if run = ['t', 'r', 'u', 'e'] then some (.boolean true)
  else if run = ['f', 'a', 'l', 's', 'e'] then some (.boolean false)
  else
    match integer? run, float? run with
    | some n, _ => some (.integer n)
    | none, some x => some (.float x)
    | none, none => if isDateTime run then some (.dateTime run) else none

/-- Reads a value with brackets and braces nested at most so deep. -/
def value? : (nesting : Nat) → Reader Item
  | nesting, s =>
    match s with
    | [] => none
    | '[' :: rest =>
      match nesting with
      | 0 => none
      | n + 1 => (itemsUntil ']' (value? n) rest).map fun (xs, rest) => (.array xs, rest)
    | '\x7b' :: rest =>
      match nesting with
      | 0 => none
      | n + 1 =>
        match itemsUntil '\x7d' (pair? dropLines (value? n)) rest with
        | some (pairs, rest) => (tableOf? pairs).map fun t => (t, rest)
        | none => none
    | c :: _ =>
      if c = '"' ∨ c = apostrophe then (string? s).map fun (cs, rest) => (.string cs, rest)
      else
        let (run, rest) := takeRun s
        (runValue? run).map fun v => (v, rest)

/-- A line of a document that says something. -/
inductive Statement where
  | assign (path : List (List Char)) (key : List Char) (value : Item)
  | header (path : List (List Char)) (key : List Char)
  | element (path : List (List Char)) (key : List Char)

/-- Reads what a line says, up to its end. -/
def statement? : Reader Statement := fun s =>
  match s with
  | '[' :: '[' :: rest =>
    match path? rest with
    | some ((path, key), ']' :: ']' :: rest) => some (.element path key, rest)
    | _ => none
  | '[' :: rest =>
    match path? rest with
    | some ((path, key), ']' :: rest) => some (.header path key, rest)
    | _ => none
  | _ =>
    (pair? dropSpaces (value? nestingLimit) s).map fun (((path, key), v), rest) =>
      (.assign path key v, rest)

/-- The statements of a whole text. -/
def statements? (s : List Char) : Option (List Statement) :=
  match dropLines s with
  | [] => some []
  | c :: more =>
    match statement? (c :: more) with
    | none => none
    | some (st, rest) =>
      match endLine? rest with
      | none => none
      | some rest =>
        if rest.length < s.length then (statements? rest).map (st :: ·) else none
termination_by s.length

/-- Carries out statements on the table of the document, the last header being that of the path. -/
def carryOut : List Statement → (current : List (List Char)) → Entries → Option Entries
  | [], _, es => some es
  | .assign path key v :: rest, current, es => do
    let (_, es) ← changeAt false current (assign path key v) .header es
    carryOut rest current es
  | .header path key :: rest, _, es => do
    let (_, es) ← openTable path key .header es
    carryOut rest (path ++ [key]) es
  | .element path key :: rest, _, es => do
    let (_, es) ← openElement path key .header es
    carryOut rest (path ++ [key]) es

/-- Drops the mark of byte order. -/
def dropByteOrderMark (s : List Char) : List Char :=
  match s with
  | '\ufeff' :: rest => rest
  | _ => s

/-- The table that a document describes. -/
def document? (s : String) : Option Entries := do
  carryOut (← statements? (dropByteOrderMark s.toList)) [] []

end TreeGrammar.Toml
