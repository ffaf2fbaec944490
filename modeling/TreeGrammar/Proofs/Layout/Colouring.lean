import TreeGrammar.Proofs.Layout.Widening

/-! # Colouring — what a terminal shows of a coloured text

    A coloured text is plain text with styles set and ended in between.  A terminal
    shows each text in the style that is set when the text arrives; `Ink.shown` is what
    it then shows.  Main results: styles are set and ended in turn, so that every atom
    is shown in its own style and no blank in any; and a reader who matches parentheses
    by a stack finds each pair in one style, another one than that of the pair around. -/

namespace TreeGrammar.Layout

/-! ## What is shown -/

/-- A text as it is shown: in a style, or in none. -/
structure Shown where
  style? : Option Style
  text : String
  deriving DecidableEq, Repr

namespace Ink

/-- The texts, each in the style that is set when it is written. -/
def shown : (style? : Option Style) → List Ink → List Shown
  | _, [] => []
  | _, .set style :: inks => shown (some style) inks
  | _, .reset :: inks => shown none inks
  | style?, .text s :: inks => ⟨style?, s⟩ :: shown style? inks

/-- The style that is set at the end. -/
def left : (style? : Option Style) → List Ink → Option Style
  | style?, [] => style?
  | _, .set style :: inks => left (some style) inks
  | _, .reset :: inks => left none inks
  | style?, .text _ :: inks => left style? inks

/-- The text of a part that is no operation on styles. -/
def text? : Ink → Option String
  | .text s => some s
  | _ => none

/-- The operations on styles, in order. -/
def operations (inks : List Ink) : List Ink :=
  inks.filter fun i => i.text?.isNone

end Ink

namespace Piece

/-- A piece as it should be shown: an atom in its own style, and a blank in none. -/
def shown : Piece → Shown
  | text style s => ⟨some style, s⟩
  | p => ⟨none, p.chars⟩

/-- The style of a piece; blanks have none. -/
def style? : Piece → Option Style
  | text style _ => some style
  | _ => none

variable (ps : List Piece)

/-- Drawing the pieces shows them. -/
theorem shown_ink : Ink.shown none (ps.flatMap ink) = ps.map shown := by
  induction ps with
  | nil => rfl
  | cons p ps ih =>
      rw [List.flatMap_cons, List.map_cons, ← ih]
      cases p <;> rfl

/-- Drawing ends without a style. -/
theorem left_ink : Ink.left none (ps.flatMap ink) = none := by
  induction ps with
  | nil => rfl
  | cons p ps ih =>
      rw [List.flatMap_cons]
      cases p <;> exact ih

/-- What is drawn of the pieces is their text. -/
theorem texts_ink : (ps.flatMap ink).filterMap Ink.text? = ps.map chars := by
  induction ps with
  | nil => rfl
  | cons p ps ih =>
      rw [List.flatMap_cons, List.filterMap_append, ih, List.map_cons]
      cases p <;> rfl

theorem eq_of_joined_eq_text {p : Piece} {style : Style} {s : String}
    (h : p.joined = text style s) : p = text style s := by
  cases p with
  | text style' s' => exact h
  | space => cases h
  | newline indent => cases h

/-- A style is set and ended for each atom, before the next is set. -/
theorem operations_ink : Ink.operations (ps.flatMap ink)
    = (ps.filterMap style?).flatMap fun style => [.set style, .reset] := by
  induction ps with
  | nil => rfl
  | cons p ps ih =>
      rw [List.flatMap_cons, Ink.operations, List.filter_append]
      rw [Ink.operations] at ih
      rw [ih]
      cases p <;> rfl

end Piece

/-! ## Parentheses -/

/-- Neighbouring depths have different colours, also where the count of the depth starts again. -/
theorem parenColour_succ_ne (depth : Fin 256) : parenColour depth ≠ parenColour (depth + 1) := by
  revert depth
  decide +kernel

/-- What a reader finds who matches parentheses, given the styles of those that are open, the
innermost first: each looks different from the one around it and is closed in its own style. -/
inductive Matched : (opened : List Style) → List Shown → Prop where
  | done : Matched [] []
  | opening {depth : Fin 256} {opened : List Style} {rest : List Shown} :
      (∀ outer ∈ opened.head?, outer.look ≠ (Style.paren depth).look) →
      Matched (.paren depth :: opened) rest →
      Matched opened (⟨some (.paren depth), "("⟩ :: rest)
  | closing {depth : Fin 256} {opened : List Style} {rest : List Shown} :
      Matched opened rest →
      Matched (.paren depth :: opened) (⟨some (.paren depth), ")"⟩ :: rest)
  | other {c : Shown} {opened : List Style} {rest : List Shown} :
      (∀ depth, c.style? ≠ some (.paren depth)) → Matched opened rest →
      Matched opened (c :: rest)

/-- The atom is no parenthesis. -/
def Atom.Plain (a : Atom) : Prop :=
  ∀ depth, a.style ≠ .paren depth

namespace Form

mutual
/-- No atom of the form is a parenthesis. -/
def Plain : Form → Prop
  | atom a => a.Plain
  | list head items => head.Plain ∧ AllPlain items
/-- No atom of the forms is a parenthesis. -/
def AllPlain : List Form → Prop
  | [] => True
  | item :: items => item.Plain ∧ AllPlain items
end

/-- The styles of so many lists in one another, the innermost first. -/
def styles : (depth : Nat) → List Style
  | 0 => []
  | depth + 1 => parenStyle depth :: styles depth

/-- A list does not look like the one directly around it. -/
theorem look_parenStyle_ne (depth : Nat) :
    (parenStyle depth).look ≠ (parenStyle (depth + 1)).look := by
  have hsucc : Fin.ofNat 256 (depth + 1) = Fin.ofNat 256 depth + 1 := by
    apply Fin.ext
    simp [Fin.val_add]
  intro h
  have hcolour := congrArg Look.colour? h
  rw [parenStyle, parenStyle, hsucc] at hcolour
  exact parenColour_succ_ne _ (Option.some.inj hcolour)

/-- The count of the depth starts again behind 255. -/
example : (parenStyle 255).look.colour? = some .yellow ∧ (parenStyle 256).look.colour? = some .blue :=
  ⟨rfl, rfl⟩

/-- A parenthesis does not look like the one around it. -/
theorem look_of_mem_head?_styles {depth : Nat} {outer : Style}
    (h : outer ∈ (styles depth).head?) : outer.look ≠ (parenStyle depth).look := by
  cases depth with
  | zero => cases h
  | succ depth =>
      cases h
      exact look_parenStyle_ne depth

mutual
/-- Behind a form the same lists are open as before it. -/
theorem matched_flat (f : Form) (hf : f.Plain) (depth : Nat) {rest : List Shown}
    (h : Matched (styles depth) rest) :
    Matched (styles depth) ((f.flat depth).map Piece.shown ++ rest) := by
  match f with
  | .atom a => exact .other (fun d hd => hf d (Option.some.inj hd)) h
  | .list head items =>
      rw [flat, List.map_cons, List.map_cons, List.map_append, List.cons_append, List.cons_append,
        List.append_assoc]
      refine .opening (fun outer houter => look_of_mem_head?_styles houter) ?_
      refine .other (fun d hd => hf.1 d (Option.some.inj hd)) ?_
      exact matched_flatItems items hf.2 (depth + 1) (.closing h)
/-- The same holds of a list behind another. -/
theorem matched_flatItems (items : List Form) (hitems : AllPlain items) (depth : Nat)
    {rest : List Shown} (h : Matched (styles depth) rest) :
    Matched (styles depth) ((flatItems items depth).map Piece.shown ++ rest) := by
  match items with
  | [] => exact h
  | item :: items =>
      rw [flatItems, List.map_cons, List.map_append, List.cons_append, List.append_assoc]
      refine .other (fun d hd => nomatch hd) ?_
      exact matched_flat item hitems.1 depth (matched_flatItems items hitems.2 depth h)
end

end Form

namespace Matched

variable {opened : List Style}

/-- What stands behind the first text can be replaced by what is read alike. -/
theorem replace {c : Shown} {rest rest' : List Shown} (h : Matched opened (c :: rest))
    (hrest : ∀ {opened}, Matched opened rest → Matched opened rest') :
    Matched opened (c :: rest') := by
  cases h with
  | opening hne h => exact .opening hne (hrest h)
  | closing h => exact .closing (hrest h)
  | other hc h => exact .other hc (hrest h)

/-- Where spaces become breaks, the parentheses stay. -/
theorem loosened {ps qs : List Piece} (hloose : List.Forall₂ Piece.Loosened ps qs)
    (h : Matched opened (ps.map Piece.shown)) : Matched opened (qs.map Piece.shown) := by
  induction hloose generalizing opened with
  | nil => exact h
  | cons hpiece _ ih =>
      cases hpiece with
      | same p => exact h.replace ih
      | opened indent =>
          -- no parenthesis is a blank
          cases h with
          | other _ h => exact .other (fun depth hd => nomatch hd) (ih h)

end Matched

namespace Form

/-- The parentheses of a printed form are matched, in every width. -/
theorem matched_pieces (f : Form) (hf : f.Plain) (width : Nat) :
    Matched [] ((f.pieces width).map Piece.shown) := by
  have hflat := matched_flat f hf 0 .done
  rw [List.append_nil] at hflat
  rw [pieces_eq_broken]
  exact hflat.loosened (loosened_flat width f 0 0 0)

/-- The parentheses of a part that is a list stand at its ends, in the style of its depth. -/
theorem Part.segment_list {f : Form} {head : Atom} {items : List Form} {start inner : Nat}
    (h : f.Part 0 start (.list head items) inner) (width : Nat) :
    ∃ middle, f.segment width start ((list head items).flat inner).length
      = .text (parenStyle inner) "(" :: (middle ++ [.text (parenStyle inner) ")"]) := by
  have hjoined := h.joined_segment width
  -- joining changes no text, so the pieces at both ends are those of the flat list
  conv at hjoined =>
    rhs
    rw [flat, ← List.cons_append]
  obtain ⟨opening, rest, hsegment, hopening, hrest⟩ := List.map_eq_cons_iff.mp hjoined
  obtain ⟨middle, last, rfl, -, hlast⟩ := List.map_eq_append_iff.mp hrest
  obtain ⟨closing, rfl, hclosing⟩ := List.map_eq_singleton_iff.mp hlast
  rw [hsegment, Piece.eq_of_joined_eq_text hopening, Piece.eq_of_joined_eq_text hclosing]
  exact ⟨middle, rfl⟩

/-! ## Coloured forms -/

/-- The parts of the coloured text of a form. -/
def inks (f : Form) (width : Nat) : List Ink :=
  (f.pieces width).flatMap Piece.ink

/-- A printed form starts with a text. -/
theorem exists_text (f : Form) (width : Nat) :
    ∃ style s rest, f.pieces width = .text style s :: rest := by
  rw [pieces_eq_broken]
  cases f with
  | atom a => exact ⟨a.style, a.text, [], rfl⟩
  | list head items =>
      rw [broken]
      split
      · exact ⟨parenStyle 0, "(", _, rfl⟩
      · exact ⟨parenStyle 0, "(", _, rfl⟩

/-- How a form is coloured in a width. -/
structure Coloured (f : Form) (width : Nat) : Prop where
  /-- The coloured text consists of texts and of operations on styles. -/
  written : f.colouredText width = String.join ((f.inks width).map Ink.code)
  /-- The texts alone are the plain text. -/
  texts : String.join ((f.inks width).filterMap Ink.text?) = f.text width
  /-- Each style that is set is ended before the next one, the last one too. -/
  operations : ∃ styles, styles ≠ []
    ∧ Ink.operations (f.inks width) = styles.flatMap fun style => [.set style, .reset]
  /-- Atoms are shown in their own styles, and spaces and breaks between them in none. -/
  shown : Ink.shown none (f.inks width) = (f.pieces width).map Piece.shown
  /-- No style is left at the end. -/
  left : Ink.left none (f.inks width) = none
  /-- Parentheses are closed in the style they are opened in, and look different from those
  directly around them. -/
  matched : Matched [] (Ink.shown none (f.inks width))
  /-- Every list has such parentheses at its ends, however deep it stands. -/
  list : ∀ {start head items inner}, f.Part 0 start (.list head items) inner →
    ∃ middle, f.segment width start ((Form.list head items).flat inner).length
      = .text (parenStyle inner) "(" :: (middle ++ [.text (parenStyle inner) ")"])

/-- A form without parentheses of its own is coloured as the laws say. -/
theorem Plain.coloured {f : Form} (hf : f.Plain) (width : Nat) : f.Coloured width where
  written := rfl
  texts := congrArg String.join (Piece.texts_ink (f.pieces width))
  operations := by
    obtain ⟨style, s, rest, hpieces⟩ := f.exists_text width
    refine ⟨(f.pieces width).filterMap Piece.style?, ?_, Piece.operations_ink _⟩
    rw [hpieces]
    exact List.cons_ne_nil style _
  shown := Piece.shown_ink (f.pieces width)
  left := Piece.left_ink (f.pieces width)
  matched := by
    rw [inks, Piece.shown_ink]
    exact matched_pieces f hf width
  list := fun h => h.segment_list width

end Form

end TreeGrammar.Layout

namespace TreeGrammar.Print

open Layout (Form Ink Matched)
open Layout.Form (Plain AllPlain)

/-- No parenthesis is part of a keyword. -/
theorem plain_keyword (s : String) : (keyword s).Plain := nofun

theorem plain_tag (t : Tag) : (tag t).Plain := by
  cases t <;> exact nofun

theorem plain_tagOrAny (t? : Option Tag) : (tagOrAny t?).Plain := by
  cases t? with
  | none => exact nofun
  | some t => exact plain_tag t

theorem plain_literal (l : Literal) : (literal l).Plain := by
  cases l <;> exact nofun

theorem plain_listOf (head : String) {items : List Form} (h : AllPlain items) :
    (listOf head items).Plain :=
  ⟨plain_keyword head, h⟩

/-- Two lists without parentheses make one. -/
theorem allPlain_append {items items' : List Form} (h : AllPlain items) (h' : AllPlain items') :
    AllPlain (items ++ items') := by
  induction items with
  | nil => exact h'
  | cons item items ih => exact ⟨h.1, ih h.2⟩

theorem allPlain_named (head : String) {items : List Form} (h : AllPlain items) :
    AllPlain (named head items) := by
  cases items with
  | nil => exact h
  | cons item items => exact ⟨plain_listOf head h, trivial⟩

mutual
/-- No text of a tree is a parenthesis; all of these come from lists. -/
theorem plain_tree (t : Tree) : (tree t).Plain := by
  match t with
  | .leaf v => exact plain_literal v
  | .node t cs => exact ⟨plain_tag t, allPlain_trees cs⟩
theorem allPlain_trees (ts : List Tree) : AllPlain (trees ts) := by
  match ts with
  | [] => trivial
  | t :: ts => exact ⟨plain_tree t, allPlain_trees ts⟩
end

theorem plain_value (v : Value) : (value v).Plain := by
  cases v with
  | lit l => exact plain_literal l
  | node t => exact plain_listOf "quote" ⟨plain_tree t, trivial⟩
  | func f => exact nofun

mutual
/-- No text of a grammar is a parenthesis. -/
theorem plain_grammar (g : Grammar) : (grammar g).Plain := by
  match g with
  | .wildcard => exact nofun
  | .exact s => exact plain_listOf "exact" ⟨nofun, trivial⟩
  | .terminal none => exact plain_listOf "terminal" trivial
  | .terminal (some k) => exact plain_listOf "terminal" ⟨nofun, trivial⟩
  | .literal l => exact plain_listOf "literal" ⟨plain_literal l, trivial⟩
  | .node t? gs => exact ⟨plain_tagOrAny t?, allPlain_grammars gs⟩
  | .vararg t? leading rest =>
      have hrest : AllPlain [listOf "rest" [grammar rest]] :=
        ⟨plain_listOf "rest" ⟨plain_grammar rest, trivial⟩, trivial⟩
      exact plain_listOf "vararg"
        ⟨plain_tagOrAny t?, allPlain_append (allPlain_grammars leading) hrest⟩
  | .all gs => exact plain_listOf "and" (allPlain_grammars gs)
  | .any gs => exact plain_listOf "or" (allPlain_grammars gs)
  | .except g => exact plain_listOf "not" ⟨plain_grammar g, trivial⟩
  | .choose c yes no =>
      exact plain_listOf "if" ⟨plain_action c, plain_grammar yes, plain_grammar no, trivial⟩
  | .switch cs => exact plain_listOf "switch" (allPlain_cases cs)
  | .recurse => exact plain_keyword "recurse"
theorem allPlain_grammars (gs : List Grammar) : AllPlain (grammars gs) := by
  match gs with
  | [] => trivial
  | g :: gs => exact ⟨plain_grammar g, allPlain_grammars gs⟩
theorem plain_case (c : Case) : (case c).Plain := by
  match c with
  | ⟨pattern, body⟩ => exact plain_listOf "case" ⟨plain_grammar pattern, allPlain_actions body⟩
theorem allPlain_cases (cs : List Case) : AllPlain (cases cs) := by
  match cs with
  | [] => trivial
  | c :: cs => exact ⟨plain_case c, allPlain_cases cs⟩
/-- No text of an action is a parenthesis. -/
theorem plain_action (a : Action) : (action a).Plain := by
  match a with
  | .constant v => exact plain_value v
  | .arg which => exact plain_keyword which.name
  | .child i => exact plain_listOf "child" ⟨nofun, trivial⟩
  | .value => exact plain_keyword "value"
  | .passThrough => exact plain_keyword "pass_through"
  | .call function args =>
      exact plain_listOf "call" ⟨plain_action function, allPlain_actions args⟩
  | .when pattern inner? =>
      exact plain_listOf "when" ⟨plain_grammar pattern, allPlain_actionIfAny inner?⟩
  | .algorithm g => exact plain_listOf "algorithm" ⟨plain_grammar g, trivial⟩
  | .leaf name => exact plain_listOf "leaf" ⟨nofun, trivial⟩
  | .invoke a target state? data? =>
      have hgiven := allPlain_append (allPlain_named "state" (allPlain_actionIfAny state?))
        (allPlain_named "data" (allPlain_actionIfAny data?))
      exact plain_listOf "invoke" ⟨plain_action a, plain_action target, hgiven⟩
  | .fold start step reverse =>
      exact plain_listOf _ ⟨plain_action start, plain_action step, trivial⟩
  | .make t args => exact plain_listOf "make" ⟨plain_tag t, allPlain_actions args⟩
  | .evaluate none => exact plain_keyword "evaluate"
  | .evaluate (some a) => exact plain_listOf "evaluate" ⟨plain_action a, trivial⟩
  | .recurse => exact plain_keyword "recurse"
theorem allPlain_actions (as : List Action) : AllPlain (actions as) := by
  match as with
  | [] => trivial
  | a :: as => exact ⟨plain_action a, allPlain_actions as⟩
theorem allPlain_actionIfAny (a? : Option Action) : AllPlain (actionIfAny a?) := by
  match a? with
  | none => trivial
  | some a => exact ⟨plain_action a, trivial⟩
end

/-- The coloured text of a tree, a grammar or an action is its plain text with styles around the
atoms, one at a time; and the parentheses of each list look alike and unlike those around it. -/
theorem coloured_print (t : Tree) (g : Grammar) (a : Action) (width : Nat) :
    (tree t).Coloured width ∧ (grammar g).Coloured width ∧ (action a).Coloured width :=
  ⟨(plain_tree t).coloured width, (plain_grammar g).coloured width,
    (plain_action a).coloured width⟩

/-- A list in a list, the outer one broken. -/
theorem coloured_print_nested :
    ∃ f part : Form,
      f = tree (.node (.user "f") [.node (.user "g") [.leaf (.int 1)]])
      ∧ part = tree (.node (.user "g") [.leaf (.int 1)])
      ∧ f.text 8 = "(f\n  (g 1))"
      ∧ f.colouredText 8
        = "\x1b[0m\x1b[2m\x1b[34m(\x1b[0m" ++ "\x1b[0m\x1b[1m\x1b[32mf\x1b[0m" ++ "\n  "
          ++ "\x1b[0m\x1b[2m\x1b[32m(\x1b[0m" ++ "\x1b[0m\x1b[1m\x1b[32mg\x1b[0m" ++ " "
          ++ "\x1b[0m\x1b[35m1\x1b[0m" ++ "\x1b[0m\x1b[2m\x1b[32m)\x1b[0m"
          ++ "\x1b[0m\x1b[2m\x1b[34m)\x1b[0m"
      ∧ Ink.left none (f.inks 8) = none
      ∧ Matched [] (Ink.shown none (f.inks 8))
      ∧ ∃ middle, f.segment 8 3 (part.flat 1).length
        = .text (Form.parenStyle 1) "(" :: (middle ++ [.text (Form.parenStyle 1) ")"]) := by
  obtain ⟨h, -, -⟩ := coloured_print
    (.node (.user "f") [.node (.user "g") [.leaf (.int 1)]]) .wildcard .value 8
  refine ⟨_, _, rfl, rfl, rfl, rfl, h.left, h.matched, ?_⟩
  exact h.list (@Form.Part.item _ [] [] _ _ _ _ _ .self)

end TreeGrammar.Print
