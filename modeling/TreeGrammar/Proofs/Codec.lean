import Mathlib.Data.List.Nodup
import TreeGrammar.Codec

/-! # What is relied on of a codec

    A document of TOML is read line by line.  `Remark`, `Break` and `Blanks` describe the
    text that says nothing, and `Codec.Lawful` has one law for each thing that a codec does:
    what such text and a line with a value add to a document, how a value is read, how
    records are read from tables and written as lines, and how alternatives are spelled.
    No law speaks of any record in particular. -/

namespace TreeGrammar

namespace Toml

/-- Spaces, and a comment behind them, if there is one. -/
inductive Remark : List Char → Prop where
  | nil : Remark []
  | space {c : Char} {r : List Char} : isSpace c = true → Remark r → Remark (c :: r)
  | comment {body : List Char} : (∀ c ∈ body, isPrintable c = true) → Remark ('#' :: body)

/-- A line break. -/
inductive Break : List Char → Prop where
  | lineFeed : Break ['\n']
  | both : Break ['\r', '\n']

/-- Lines with nothing but remarks. -/
inductive Blanks : List Char → Prop where
  | nil : Blanks []
  | line {r b p : List Char} : Remark r → Break b → Blanks p → Blanks (r ++ (b ++ p))

/-- The mark of byte order does not start a text. -/
def Unmarked (t : List Char) : Prop :=
  ∀ r, t ≠ '\ufeff' :: r

theorem unmarked_nil : Unmarked [] := by
  intro r h
  cases h

theorem unmarked_cons {c : Char} (hc : c ≠ '\ufeff') (t : List Char) : Unmarked (c :: t) := by
  intro r h
  exact hc (List.cons.inj h).1

/-- A line with nothing but a remark does not start with the mark. -/
theorem Remark.unmarked {r b : List Char} (hr : Remark r) (hb : Break b) (t : List Char) :
    Unmarked (r ++ (b ++ t)) := by
  cases hr with
  | nil =>
      cases hb with
      | lineFeed => exact unmarked_cons (by decide) _
      | both => exact unmarked_cons (by decide) _
  | space hc _ =>
      refine unmarked_cons ?_ _
      rintro rfl
      exact absurd hc (by decide)
  | comment _ => exact unmarked_cons (by decide) _

/-- Blank lines in front of a text do not start with the mark either. -/
theorem Blanks.unmarked {p t : List Char} (hp : Blanks p) (ht : Unmarked t) : Unmarked (p ++ t) := by
  cases hp with
  | nil => exact ht
  | @line r b p hr hb _ =>
      rw [List.append_assoc, List.append_assoc]
      exact hr.unmarked hb (p ++ t)

end Toml

open Toml (Remark Break Blanks Unmarked)

namespace Codec

variable {Table Item : Type} (codec : Codec Table Item)

/-- What a field holds in a table: its value there, or its standard. -/
def fieldOf? (tbl : Table) (f : Field) : Option Datum :=
  match codec.get? tbl f.name with
  | some item => codec.datum? f.shape item
  | none => some f.standard

/-- A capital letter in front of small ones. -/
def isCapitalised (w : Char × List Char) : Bool :=
  w.1.isUpper && w.2.all Char.isLower

/-- The laws of a codec for TOML.  The first three are those of the format, line by line, and the
others are those of values and records. -/
structure Lawful : Prop where
  /-- The empty text is a document without keys. -/
  table?_empty : ∃ tbl, codec.table? "" = some tbl ∧ ∀ key, codec.get? tbl key = none
  /-- A line with nothing but a remark adds nothing to the document behind it. -/
  table?_remark : ∀ {r b t : List Char} {tbl : Table}, Remark r → Break b → Unmarked t →
    codec.table? (String.ofList t) = some tbl →
    codec.table? (String.ofList (r ++ (b ++ t))) = some tbl
  /-- A line with a value adds its key to the document behind it, if that is without the key.  No
  line break is needed at the end of the text. -/
  table?_line : ∀ {key : String} {d : Datum} {r b t : List Char} {tbl : Table},
    isBare key = true → d.isPlain = true → Remark r → Break b ∨ b ++ t = [] → Unmarked t →
    codec.table? (String.ofList t) = some tbl → codec.get? tbl key = none →
    ∃ tbl', codec.table? (String.ofList (line key d ++ (r ++ (b ++ t)))) = some tbl'
      ∧ codec.get? tbl' key = some (codec.item d)
      ∧ ∀ other, other ≠ key → codec.get? tbl' other = codec.get? tbl other
  /-- A number of 64 bits is read as it is written. -/
  datum?_word : ∀ n : Nat, n ≤ 0xffffffffffffffff →
    codec.datum? .word (codec.item (.word n)) = some (.word n)
  /-- Each of the names that may stand is read as it is written. -/
  datum?_name : ∀ (names : List String) (s : String), s ∈ names →
    codec.datum? (.choice names) (codec.item (.name s)) = some (.name s)
  /-- Capitalised words are spelled in lower case with underscores between them. -/
  snakeCase_words : ∀ words : List (Char × List Char), (∀ w ∈ words, isCapitalised w = true) →
    codec.snakeCase (String.ofList (words.flatMap fun w => w.1 :: w.2))
      = String.ofList (['_'].intercalate (words.map fun w => w.1.toLower :: w.2))
  /-- A record is read from the table of a document, each field by itself. -/
  read?_eq : ∀ {fields : List Field} {s : String} {tbl : Table},
    (fields.map Field.name).Nodup → codec.table? s = some tbl →
    codec.read? fields s = fields.mapM (codec.fieldOf? tbl)
  /-- A record is written as a line for each field. -/
  write?_eq : ∀ es : List (String × Datum), (es.map Prod.fst).Nodup →
    (∀ e ∈ es, isBare e.1 = true ∧ e.2.isPlain = true) →
    codec.write? es = some (String.ofList (es.flatMap fun e => line e.1 e.2 ++ ['\n']))

variable {codec}

/-- Blank lines add nothing to the document behind them. -/
theorem Lawful.table?_blanks (h : codec.Lawful) {p t : List Char} {tbl : Table} (hp : Blanks p)
    (ht : Unmarked t) (htbl : codec.table? (String.ofList t) = some tbl) :
    codec.table? (String.ofList (p ++ t)) = some tbl := by
  induction hp with
  | nil => exact htbl
  | line hr hb hp ih =>
      rw [List.append_assoc, List.append_assoc]
      exact h.table?_remark hr hb (hp.unmarked ht) ih

/-- A line with a value does not start with the mark of byte order. -/
theorem unmarked_line {key : String} (hkey : isBare key = true) (d : Datum) (t : List Char) :
    Unmarked (line key d ++ t) := by
  rw [isBare, Bool.and_eq_true, List.all_eq_true] at hkey
  obtain ⟨hne, hall⟩ := hkey
  rw [line]
  cases hk : key.toList with
  | nil =>
      rw [hk] at hne
      cases hne
  | cons c k =>
      refine Toml.unmarked_cons ?_ _
      rintro rfl
      exact absurd (hall '\ufeff' (by rw [hk]; exact List.mem_cons_self)) (by decide)

end Codec

end TreeGrammar
