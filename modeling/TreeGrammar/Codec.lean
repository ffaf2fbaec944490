import TreeGrammar.Number.Decimal
import TreeGrammar.Toml.Alphabet

/-! # Codecs — records as documents

    A record declares its fields: the name of each, what it may hold, and what it holds
    where a document is silent.  A codec is a library that reads such records from TOML
    documents and writes them.  The program uses what a codec offers and knows nothing
    of how it works; what it may rely on is said by `Codec.Lawful`. -/

namespace TreeGrammar

namespace Codec

/-- What a field may hold. -/
inductive Shape where
  /-- A number of 64 bits without sign. -/
  | word
  /-- One of some names. -/
  | choice (names : List String)

/-- What a field holds. -/
inductive Datum where
  | word (n : Nat)
  | name (s : String)

/-- A field of a record. -/
structure Field where
  name : String
  shape : Shape
  /-- What the field holds if it is missing. -/
  standard : Datum

/-- A name that stands as a key, and in a string, as it is. -/
def isBare (s : String) : Bool :=
  !s.toList.isEmpty && s.toList.all Toml.inBareKey

namespace Datum

/-- A number that fits the word, or a name without special characters. -/
def isPlain : Datum → Bool
  | word n => n ≤ 0xffffffffffffffff
  | name s => isBare s

/-- Numbers are written in decimal, and names between quotation marks. -/
def written : Datum → List Char
  | word n => Number.digitsOf n
  | name s => '"' :: (s.toList ++ ['"'])

end Datum

/-- The line that gives a key a value, up to its end. -/
def line (key : String) (d : Datum) : List Char :=
  key.toList ++ (' ' :: '=' :: ' ' :: d.written)

end Codec

/-- What a library for TOML documents offers. -/
structure Codec (Table Item : Type) where
  /-- The table that a document describes. -/
  table? : String → Option Table
  /-- The value of a key. -/
  get? : Table → String → Option Item
  /-- The value that a datum is written as. -/
  item : Codec.Datum → Item
  /-- The datum that a value stands for. -/
  datum? : Codec.Shape → Item → Option Codec.Datum
  /-- The name under which a declared alternative is written. -/
  snakeCase : String → String
  /-- Reads what the fields of a record hold. -/
  read? : List Codec.Field → String → Option (List Codec.Datum)
  /-- Writes what the fields of a record hold, each with its name. -/
  write? : List (String × Codec.Datum) → Option String

end TreeGrammar
