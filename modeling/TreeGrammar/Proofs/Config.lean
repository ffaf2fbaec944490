import TreeGrammar.Config.Text
import TreeGrammar.Proofs.Toml.Codec

/-! # Configurations as documents — every setting by itself

    The text of a configuration has a line for each setting.  `Document` says which
    documents have some of these lines, in any order, with remarks, blank lines, and
    anything behind them that is a document without the two keys.  Each setting is read
    from its line if there is one, and else is the default, whatever the others are.

    All this holds of any codec that keeps the laws.  What comes from the configuration
    are the keys, the declared names, the kinds of the two settings and their defaults. -/

namespace TreeGrammar

open Codec (Datum)
open Toml (Remark Break Blanks Unmarked)

variable {Table Item : Type} {codec : Codec Table Item}

/-! ## The names of behaviours -/

namespace WhenDefault

/-- The name of a behaviour as it stands in documents. -/
def spelled : WhenDefault → String
  | pattern => "pattern"
  | passThrough => "pass_through"

section Names

variable (hcodec : codec.Lawful)
include hcodec

/-- The words of a declared name are spelled in lower case, with an underscore between them. -/
theorem name_eq (w : WhenDefault) : w.name codec = w.spelled := by
  cases w with
  | pattern =>
      have hspelled := hcodec.snakeCase_words [('P', "attern".toList)] (List.all_eq_true.mp rfl)
      exact (congrArg codec.snakeCase (by decide)).trans (hspelled.trans (by decide))
  | passThrough =>
      have hspelled := hcodec.snakeCase_words [('P', "ass".toList), ('T', "hrough".toList)]
        (List.all_eq_true.mp rfl)
      exact (congrArg codec.snakeCase (by decide)).trans (hspelled.trans (by decide))

/-- The names of behaviours need neither quotation marks nor escapes. -/
theorem isBare_name (w : WhenDefault) : Codec.isBare (w.name codec) = true := by
  rw [name_eq hcodec]
  cases w <;> decide

/-- No two behaviours have the same name, so that a name is that of its behaviour. -/
theorem ofName?_name (w : WhenDefault) : ofName? codec (w.name codec) = some w := by
  have hname : (fun v : WhenDefault => v.name codec == w.name codec)
      = fun v => v.spelled == w.spelled := by
    funext v
    rw [name_eq hcodec, name_eq hcodec]
  rw [ofName?, hname]
  cases w <;> decide

end Names

theorem mem_all (w : WhenDefault) : w ∈ all := by
  cases w <;> decide

end WhenDefault

namespace Config

/-! ## Settings -/

namespace Setting

/-- The line of a setting as it stands in documents, up to its end. -/
def line (c : Config) : Setting → List Char
  | maxDepth => "max_depth = ".toList ++ Number.digitsOf c.maxDepth
  | whenDefault => "when_default = \"".toList ++ (c.whenDefault.spelled.toList ++ ['"'])

/-- No line starts with the mark of byte order. -/
theorem unmarked_line (s : Setting) (c : Config) (t : List Char) : Unmarked (s.line c ++ t) := by
  cases s with
  | maxDepth => exact Toml.unmarked_cons (c := 'm') (by decide) _
  | whenDefault => exact Toml.unmarked_cons (c := 'w') (by decide) _

/-- No two settings have the same key. -/
theorem key_injective {s s' : Setting} (h : s.key = s'.key) : s = s' := by
  cases s <;> cases s' <;> first | rfl | exact absurd h (by decide)

/-- The keys need no quotation marks. -/
theorem isBare_key (s : Setting) : Codec.isBare s.key = true := by
  cases s <;> decide

theorem nodup_keys : (all.map key).Nodup := by
  decide

section Datum

variable (hcodec : codec.Lawful) {c : Config} (h : c.maxDepth ≤ 0xffffffffffffffff)
include hcodec h

omit h in
/-- The codec writes this line for the setting. -/
theorem line_eq (s : Setting) : Codec.line s.key (s.datum codec c) = s.line c := by
  cases s with
  | maxDepth =>
      have hkey : "max_depth = ".toList = "max_depth".toList ++ [' ', '=', ' '] := by decide
      show _ = "max_depth = ".toList ++ Number.digitsOf c.maxDepth
      rw [hkey, List.append_assoc]
      rfl
  | whenDefault =>
      have hkey : "when_default = \"".toList = "when_default".toList ++ [' ', '=', ' ', '"'] := by
        decide
      show Codec.line "when_default" (.name (c.whenDefault.name codec))
        = "when_default = \"".toList ++ (c.whenDefault.spelled.toList ++ ['"'])
      rw [hkey, WhenDefault.name_eq hcodec, List.append_assoc]
      rfl

/-- What a setting is in a configuration is written without escapes, and fits its word. -/
theorem isPlain_datum (s : Setting) : (s.datum codec c).isPlain = true := by
  cases s with
  | maxDepth => exact decide_eq_true h
  | whenDefault => exact WhenDefault.isBare_name hcodec c.whenDefault

/-- What a setting is in a configuration is what may be in its field. -/
theorem datum?_item (s : Setting) :
    codec.datum? (s.shape codec) (codec.item (s.datum codec c)) = some (s.datum codec c) := by
  cases s with
  | maxDepth => exact hcodec.datum?_word c.maxDepth h
  | whenDefault =>
      refine hcodec.datum?_name _ _ ?_
      exact List.mem_map_of_mem (WhenDefault.mem_all c.whenDefault)

end Datum

end Setting

/-- The lines of both settings. -/
def lines (c : Config) : List Char :=
  Setting.maxDepth.line c ++ '\n' :: (Setting.whenDefault.line c ++ ['\n'])

/-- The configuration with some of the settings, and with the default for each other one. -/
def keeping (c : Config) (ss : List Setting) : Config where
  maxDepth := if Setting.maxDepth ∈ ss then c.maxDepth else 512
  whenDefault := if Setting.whenDefault ∈ ss then c.whenDefault else .pattern

/-- A setting that is not kept is that of the default configuration. -/
theorem datum_keeping (codec : Codec Table Item) (c : Config) (ss : List Setting) (s : Setting) :
    s.datum codec (c.keeping ss) = if s ∈ ss then s.datum codec c else s.datum codec {} := by
  cases s with
  | maxDepth => exact apply_ite Datum.word _ _ _
  | whenDefault => exact apply_ite (fun w : WhenDefault => Datum.name (w.name codec)) _ _ _

theorem keeping_all (c : Config) : c.keeping Setting.all = c := rfl

/-! ## Documents -/

/-- The documents that have the lines of some settings, one after the other, and behind them
nothing that the settings could be read from. -/
inductive Document (codec : Codec Table Item) (c : Config) : List Setting → List Char → Prop where
  | rest {t : List Char} {tbl : Table} :
      Unmarked t → codec.table? (String.ofList t) = some tbl →
      codec.get? tbl "max_depth" = none → codec.get? tbl "when_default" = none →
      Document codec c [] t
  | line {s : Setting} {ss : List Setting} {p r b t : List Char} :
      Blanks p → Remark r → Break b → Document codec c ss t →
      Document codec c (s :: ss) (p ++ (s.line c ++ (r ++ (b ++ t))))
  | last {s : Setting} {p r : List Char} :
      Blanks p → Remark r → Document codec c [s] (p ++ (s.line c ++ r))

/-- A document with lines starts with a blank line or with a key. -/
theorem Document.unmarked {c : Config} {ss : List Setting} {t : List Char}
    (hd : Document codec c ss t) : Unmarked t := by
  cases hd with
  | rest hmark _ _ _ => exact hmark
  | line hp _ _ _ => exact hp.unmarked (Setting.unmarked_line _ c _)
  | last hp _ => exact hp.unmarked (Setting.unmarked_line _ c _)

/-- The table has some settings of a configuration, and none of the others. -/
def Holds (codec : Codec Table Item) (c : Config) (ss : List Setting) (tbl : Table) : Prop :=
  ∀ s : Setting, codec.get? tbl s.key = if s ∈ ss then some (codec.item (s.datum codec c)) else none

section Reading

variable (hcodec : codec.Lawful) {c : Config} (h : c.maxDepth ≤ 0xffffffffffffffff)
include hcodec h

/-- The line of a setting, behind blank lines, adds the setting to the document behind it. -/
theorem table?_line {s : Setting} {ss : List Setting} (hs : s ∉ ss) {p r b t : List Char}
    {tbl : Table} (hp : Blanks p) (hr : Remark r) (hb : Break b ∨ b ++ t = []) (ht : Unmarked t)
    (htbl : codec.table? (String.ofList t) = some tbl) (hholds : Holds codec c ss tbl) :
    ∃ tbl', codec.table? (String.ofList (p ++ (s.line c ++ (r ++ (b ++ t))))) = some tbl'
      ∧ Holds codec c (s :: ss) tbl' := by
  have hnew : codec.get? tbl s.key = none := (hholds s).trans (if_neg hs)
  obtain ⟨tbl', htbl', hkey, hothers⟩ :=
    hcodec.table?_line s.isBare_key (s.isPlain_datum hcodec h) hr hb ht htbl hnew
  rw [s.line_eq hcodec] at htbl'
  refine ⟨tbl', hcodec.table?_blanks hp (s.unmarked_line c _) htbl', fun s' => ?_⟩
  by_cases heq : s' = s
  · rw [heq, hkey, if_pos List.mem_cons_self]
  · have hmem : s' ∈ s :: ss ↔ s' ∈ ss := List.mem_cons.trans (or_iff_right heq)
    rw [hothers s'.key fun hk => heq (Setting.key_injective hk), hholds s', if_congr hmem rfl rfl]

/-- The table of a document has the settings of its lines and no others. -/
theorem Document.exists_table {ss : List Setting} {t : List Char} (hd : Document codec c ss t)
    (hss : ss.Nodup) :
    ∃ tbl, codec.table? (String.ofList t) = some tbl ∧ Holds codec c ss tbl := by
  induction hd with
  | rest _ htbl hdepth hwhen =>
      refine ⟨_, htbl, fun s => ?_⟩
      cases s with
      | maxDepth => exact hdepth
      | whenDefault => exact hwhen
  | line hp hr hb hd ih =>
      obtain ⟨hs, hss⟩ := List.nodup_cons.mp hss
      obtain ⟨tbl, htbl, hholds⟩ := ih hss
      exact table?_line hcodec h hs hp hr (Or.inl hb) hd.unmarked htbl hholds
  | @last s p r hp hr =>
      -- behind the last line there is the empty document
      obtain ⟨tbl, htbl, hnone⟩ := hcodec.table?_empty
      have hlast := table?_line hcodec h (List.not_mem_nil (a := s)) hp hr
        (Or.inr (List.nil_append [])) Toml.unmarked_nil htbl fun s => hnone s.key
      rw [List.append_nil, List.append_nil] at hlast
      exact hlast

/-- A field is what it is in the table, or the default. -/
theorem fieldOf?_field {ss : List Setting} {tbl : Table} (hholds : Holds codec c ss tbl)
    (s : Setting) :
    codec.fieldOf? tbl (s.field codec) = some (s.datum codec (c.keeping ss)) := by
  have hget : codec.get? tbl (s.field codec).name = _ := hholds s
  rw [Codec.fieldOf?, hget, datum_keeping]
  by_cases hs : s ∈ ss
  · rw [if_pos hs, if_pos hs]
    exact s.datum?_item hcodec h
  · rw [if_neg hs, if_neg hs]
    rfl

/-- Each setting that has a line is read from it, and each other one is the default. -/
theorem parse_document {ss : List Setting} {t : List Char} (hd : Document codec c ss t)
    (hss : ss.Nodup) : parse codec (String.ofList t) = .ok (c.keeping ss) := by
  obtain ⟨tbl, htbl, hholds⟩ := hd.exists_table hcodec h hss
  have hread : codec.read? (Setting.all.map (·.field codec)) (String.ofList t)
      = some (Setting.all.map (·.datum codec (c.keeping ss))) := by
    have hnodup : ((Setting.all.map (·.field codec)).map Codec.Field.name).Nodup :=
      Setting.nodup_keys
    rw [hcodec.read?_eq hnodup htbl]
    simp only [Setting.all, List.map_cons, List.map_nil, List.mapM_cons, List.mapM_nil,
      fieldOf?_field hcodec h hholds]
    rfl
  have hdata : ofData? codec (Setting.all.map (·.datum codec (c.keeping ss)))
      = some (c.keeping ss) := by
    show (WhenDefault.ofName? codec ((c.keeping ss).whenDefault.name codec)).map _ = _
    rw [WhenDefault.ofName?_name hcodec]
    rfl
  rw [parse, hread, Option.bind_some, hdata]

/-- The text of a configuration has the lines of its settings. -/
theorem text_eq : c.text codec = .ok (String.ofList (lines c)) := by
  have hplain : ∀ e ∈ Setting.all.map (fun s => (s.key, s.datum codec c)),
      Codec.isBare e.1 = true ∧ e.2.isPlain = true := by
    intro e he
    obtain ⟨s, -, rfl⟩ := List.mem_map.mp he
    exact ⟨s.isBare_key, s.isPlain_datum hcodec h⟩
  have hnodup : ((Setting.all.map fun s => (s.key, s.datum codec c)).map Prod.fst).Nodup :=
    Setting.nodup_keys
  rw [text, hcodec.write?_eq _ hnodup hplain]
  simp only [Setting.all, List.map_cons, List.map_nil, List.flatMap_cons, List.flatMap_nil,
    Setting.line_eq hcodec, List.append_nil, List.append_assoc, List.singleton_append]
  rfl

omit h in
/-- The lines of a configuration are a document of all its settings. -/
theorem document_lines (c : Config) : Document codec c Setting.all (lines c) := by
  obtain ⟨tbl, htbl, hnone⟩ := hcodec.table?_empty
  have hnothing := Document.rest (c := c) Toml.unmarked_nil htbl (hnone _) (hnone _)
  have hlast := Document.line (s := .whenDefault) .nil .nil .lineFeed hnothing
  exact .line .nil .nil .lineFeed hlast

end Reading

/-! ## Round trip -/

/-- With any codec that keeps the laws, a configuration is written as the lines of its settings, and
read back from them.  From any document that has some of these lines, each once and in any order,
each of their settings is read back, and each other setting is the default. -/
theorem settings_are_read_back (hcodec : codec.Lawful) (c : Config)
    (h : c.maxDepth ≤ 0xffffffffffffffff) :
    (∃ s, c.text codec = .ok s ∧ s.toList = lines c ∧ parse codec s = .ok c)
      ∧ ∀ (ss : List Setting) (t : List Char), ss.Nodup → Document codec c ss t →
        parse codec (String.ofList t) = .ok (c.keeping ss) := by
  constructor
  · refine ⟨_, text_eq hcodec h, String.toList_ofList, ?_⟩
    rw [parse_document hcodec h (document_lines hcodec c) (by decide), keeping_all]
  · intro ss t hss hd
    exact parse_document hcodec h hd hss

/-- The greatest limit, alone and behind the other setting, in front of a table with the same key. -/
theorem settings_are_read_back_greatest :
    text Toml.codec ⟨0xffffffffffffffff, .passThrough⟩
        = .ok "max_depth = 18446744073709551615\nwhen_default = \"pass_through\"\n"
      ∧ parse Toml.codec "max_depth = 18446744073709551615\nwhen_default = \"pass_through\"\n"
        = .ok ⟨0xffffffffffffffff, .passThrough⟩
      ∧ parse Toml.codec "\n# all\nmax_depth = 18446744073709551615 # or less"
        = .ok ⟨0xffffffffffffffff, .pattern⟩
      ∧ parse Toml.codec
          ("when_default = \"pass_through\"\t#\r\n \nmax_depth = 18446744073709551615\n"
            ++ "# more\nname = 'x'\n[server]\nmax_depth = true")
        = .ok ⟨0xffffffffffffffff, .passThrough⟩ := by
  obtain ⟨⟨s, htext, hs, hparse⟩, hread⟩ :=
    settings_are_read_back Toml.codec_lawful ⟨0xffffffffffffffff, .passThrough⟩ (by decide)
  have hlines : s = "max_depth = 18446744073709551615\nwhen_default = \"pass_through\"\n" :=
    String.toList_inj.mp (hs.trans (by decide))
  have hspace {r : List Char} (hr : Remark r) : Remark (' ' :: r) := .space rfl hr
  have hremark (body : List Char) (hbody : body.all Toml.isPrintable = true) :
      Remark ('#' :: body) := .comment (List.all_eq_true.mp hbody)
  refine ⟨hlines ▸ htext, hlines ▸ hparse, ?_, ?_⟩
  · have hblanks := Blanks.line .nil .lineFeed (.line (hremark " all".toList rfl) .lineFeed .nil)
    have hdocument := hread [.maxDepth] _ (by decide)
      (.last hblanks (hspace (hremark " or less".toList rfl)))
    refine (congrArg (parse Toml.codec) ?_).trans (hdocument.trans rfl)
    decide
  · have hrest : Document Toml.codec ⟨0xffffffffffffffff, .passThrough⟩ []
        "# more\nname = 'x'\n[server]\nmax_depth = true".toList := by
      have htable : Toml.codec.table? "# more\nname = 'x'\n[server]\nmax_depth = true"
          = some [("name".toList, .string ['x']),
            ("server".toList, .table .header [("max_depth".toList, .boolean true)])] := by
        show Toml.document? _ = _
        cbv
      exact .rest (Toml.unmarked_cons (by decide) _) htable rfl rfl
    have hblanks := Blanks.line (hspace .nil) .lineFeed .nil
    have hdocument := hread [.whenDefault, .maxDepth] _ (by decide)
      (.line .nil (.space (c := '\t') rfl (hremark [] rfl)) .both
        (.line hblanks .nil .lineFeed hrest))
    refine (congrArg (parse Toml.codec) ?_).trans (hdocument.trans rfl)
    decide

end Config

end TreeGrammar
