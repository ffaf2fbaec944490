import TreeGrammar.Toml.Number

/-! # Tables of TOML

    A table maps keys to values and remembers how it came to be, since that decides
    what may still be added to it: a table that only lies on the way to another may
    get a header later, one made by a dotted key may be extended by dotted keys, and
    one written in braces is complete. -/

namespace TreeGrammar.Toml

/-- How a table came to be. -/
inductive Origin where
  /-- By its own header, or as the whole document. -/
  | header
  /-- On the way to the header of another table. -/
  | implied
  /-- On the way to the value of a dotted key. -/
  | dotted
  /-- In braces. -/
  | braces
  deriving DecidableEq

/-- A value of a document. -/
inductive Item where
  | string (s : List Char)
  | integer (n : Int)
  | float (x : Float)
  | boolean (b : Bool)
  | dateTime (text : List Char)
  | array (items : List Item)
  | table (origin : Origin) (entries : List (List Char × Item))
  /-- The tables of headers in double brackets, the last one first. -/
  | tables (items : List Item)
  deriving Inhabited

/-- The entries of a table, in the order of their keys in the document. -/
abbrev Entries := List (List Char × Item)

namespace Entries

/-- The value of a key. -/
def get? (es : Entries) (key : List Char) : Option Item :=
  List.lookup key es

/-- Puts a value in the place of a key's, or at the end. -/
def put (es : Entries) (key : List Char) (item : Item) : Entries :=
  if (get? es key).isSome then es.map fun e => if e.1 == key then (key, item) else e
  else es ++ [(key, item)]

/-- Adds a key that must be new. -/
def add? (es : Entries) (key : List Char) (item : Item) : Option Entries :=
  if (get? es key).isSome then none else some (put es key item)

end Entries

/-- What is done with the table at the end of a path: its origin and entries are replaced. -/
abbrev Change := Origin → Entries → Option (Origin × Entries)

/-- Whether a path may lead on through a table. -/
def passable (viaDots : Bool) (origin : Origin) : Bool :=
  origin != .braces && !(viaDots && origin == .header)

/-- Follows a path of keys, making the tables that are missing, and changes the last table. -/
def changeAt (viaDots : Bool) : List (List Char) → Change → Change
  | [], change, origin, es => change origin es
  | key :: path, change, origin, es =>
    match Entries.get? es key with
    | none => do
      let (o, sub) ← changeAt viaDots path change (if viaDots then .dotted else .implied) []
      return (origin, Entries.put es key (.table o sub))
    | some (.table o sub) =>
      if passable viaDots o then do
        let (o, sub) ← changeAt viaDots path change o sub
        return (origin, Entries.put es key (.table o sub))
      else none
    | some (.tables (.table o sub :: others)) =>
      if passable false o then do
        let (o, sub) ← changeAt viaDots path change o sub
        return (origin, Entries.put es key (.tables (.table o sub :: others)))
      else none
    | _ => none

/-- Gives a dotted key a value; the last table on its way must have been made by dots, if there is
one. -/
def assign (path : List (List Char)) (key : List Char) (item : Item) : Change :=
  changeAt true path fun origin es =>
    if (origin == .dotted) == path.isEmpty then none
    else (Entries.add? es key item).map (origin, ·)

/-- Opens the table of a header; it may have been implied but not defined. -/
def openTable (path : List (List Char)) (key : List Char) : Change :=
  changeAt false path fun origin es =>
    match Entries.get? es key with
    | none => some (origin, Entries.put es key (.table .header []))
    | some (.table .implied sub) => some (origin, Entries.put es key (.table .header sub))
    | _ => none

/-- Opens a further table of a header in double brackets. -/
def openElement (path : List (List Char)) (key : List Char) : Change :=
  changeAt false path fun origin es =>
    match Entries.get? es key with
    | none => some (origin, Entries.put es key (.tables [.table .header []]))
    | some (.tables items) =>
      some (origin, Entries.put es key (.tables (.table .header [] :: items)))
    | _ => none

end TreeGrammar.Toml
