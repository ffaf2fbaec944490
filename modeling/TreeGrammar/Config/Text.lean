import TreeGrammar.Codec
import TreeGrammar.Config

/-! # Configurations as documents

    A configuration is the record of its settings, `max_depth` and `when_default`, which a
    codec reads and writes.  A setting that is missing is that of the default
    configuration.  A behaviour is written under the name of its alternative, in the
    spelling that the codec gives it. -/

namespace TreeGrammar

open Codec (Shape Datum Field)

namespace WhenDefault

variable {Table Item : Type} (codec : Codec Table Item)

/-- All behaviours. -/
def all : List WhenDefault :=
  [pattern, passThrough]

/-- The declared name. -/
def ident : WhenDefault → String
  | pattern => "Pattern"
  | passThrough => "PassThrough"

/-- The written name. -/
def name (w : WhenDefault) : String :=
  codec.snakeCase w.ident

/-- The behaviour that bears a written name. -/
def ofName? (s : String) : Option WhenDefault :=
  all.find? fun w => w.name codec == s

end WhenDefault

/-- Why no configuration could be read or written. -/
inductive ConfigError where
  /-- The text is no document, or a key has no value of its kind. -/
  | malformed
  /-- There is no such file. -/
  | unreadable
  /-- The codec does not write the settings. -/
  | unwritable
  deriving DecidableEq, Repr

namespace Config

variable {Table Item : Type} (codec : Codec Table Item)

/-- A setting of a configuration. -/
inductive Setting where
  | maxDepth
  | whenDefault
  deriving DecidableEq

namespace Setting

/-- All settings, in the order in which they are written. -/
def all : List Setting :=
  [maxDepth, whenDefault]

/-- The name of a setting in documents. -/
def key : Setting → String
  | maxDepth => "max_depth"
  | whenDefault => "when_default"

/-- What a setting may be. -/
def shape : Setting → Shape
  | maxDepth => .word
  | whenDefault => .choice (WhenDefault.all.map (·.name codec))

/-- What a setting is in a configuration. -/
def datum (c : Config) : Setting → Datum
  | maxDepth => .word c.maxDepth
  | whenDefault => .name (c.whenDefault.name codec)

/-- A setting as a field; if it is missing, it is that of the default configuration. -/
def field (s : Setting) : Field where
  name := s.key
  shape := s.shape codec
  standard := s.datum codec {}

end Setting

/-- The configuration with such settings. -/
def ofData? : List Datum → Option Config
  | [.word n, .name s] => (WhenDefault.ofName? codec s).map fun w => ⟨n, w⟩
  | _ => none

/-- The configuration that a text describes. -/
def parse (s : String) : Except ConfigError Config :=
  match (codec.read? (Setting.all.map (·.field codec)) s).bind (ofData? codec) with
  | some c => .ok c
  | none => .error .malformed

/-- The text of a configuration. -/
def text (c : Config) : Except ConfigError String :=
  match codec.write? (Setting.all.map fun s => (s.key, s.datum codec c)) with
  | some s => .ok s
  | none => .error .unwritable

end Config

end TreeGrammar
