import TreeGrammar.Codec
import TreeGrammar.Toml.Document

/-! # A codec to run with

    Nothing is claimed of configurations that rests on this codec; it is one that keeps the
    laws.  Records are read from the tables that `document?` finds.  A field that the table
    does not have keeps its standard, and all other keys are passed over.  Only records
    whose fields need no quotation marks and no escapes are written. -/

namespace TreeGrammar.Toml

open Codec (Shape Datum Field)

/-- Whether a value is an empty list or table. -/
def isHollow : Item → Bool
  | .array [] => true
  | .table _ [] => true
  | _ => false

/-- The name that a value gives: as a string, or as the key of a table with an empty value. -/
def nameOf? : Item → Option String
  | .string s => some (String.ofList s)
  | .table _ [(s, item)] => if isHollow item then some (String.ofList s) else none
  | _ => none

/-- The number that a value gives, if 64 bits hold it. -/
def wordOf? : Item → Option Nat
  | .integer n => if 0 ≤ n ∧ n ≤ 0xffffffffffffffff then some n.toNat else none
  | _ => none

/-- The datum that a value stands for. -/
def datum? (shape : Shape) (item : Item) : Option Datum :=
  match shape with
  | .word => (wordOf? item).map .word
  | .choice names => ((nameOf? item).filter names.contains).map .name

/-- What a field holds in a table. -/
def fieldOf? (es : Entries) (f : Field) : Option Datum :=
  match Entries.get? es f.name.toList with
  | some item => datum? f.shape item
  | none => some f.standard

/-- A letter in lower case, behind an underscore if it is a capital. -/
def spelled (c : Char) : List Char :=
  if c.isUpper then ['_', c.toLower] else [c]

/-- A name in lower case, with an underscore in front of every capital but the first letter. -/
def snakeCase (s : String) : String :=
  match s.toList with
  | [] => ""
  | c :: cs => String.ofList (c.toLower :: cs.flatMap spelled)

/-- The codec that reads tables by `document?`, and writes a line for each field. -/
def codec : Codec Entries Item where
  table? := document?
  get? es key := Entries.get? es key.toList
  item
    | .word n => .integer n
    | .name s => .string s.toList
  datum? := datum?
  snakeCase := snakeCase
  read? fields s := (document? s).bind fun es => fields.mapM (fieldOf? es)
  write? es :=
    if es.all fun e => Codec.isBare e.1 && e.2.isPlain then
      some (String.ofList (es.flatMap fun e => Codec.line e.1 e.2 ++ ['\n']))
    else none

end TreeGrammar.Toml
