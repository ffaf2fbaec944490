import TreeGrammar.Print
import TreeGrammar.Proofs.Layout.Spelling
import TreeGrammar.Proofs.Number.FloatText
import TreeGrammar.Proofs.Read.Context
import TreeGrammar.Read.Tree

/-! # Printing and reading trees

    Every literal is read back from its text, so every spelling of a tree has the
    tokens of the tree, and those tokens stand for the tree when its tags can be read
    at all.  A tree that is read, in turn, has only such tags: words that the user may
    give because no operator bears them. -/

namespace TreeGrammar.Read

open Layout (Gap)
open Layout.Form (Spells ItemsSpell)
open Text (isBlank isWord)

/-! ## Literals -/

/-- A word is read as the literal it stands for. -/
theorem literal?_word {w s : List Char} (hw : isWord w = true) (hs : Stops s) :
    literal? (w ++ s) = some (wordLiteral (String.ofList w), s) := by
  have hread : word? (w ++ s) = some (wordLiteral (String.ofList w), s) := by
    rw [word?, word?_append hw hs]
    rfl
  cases w with
  | nil => cases hw
  | cons c w =>
      have hc : Text.startsWord c = true := by
        rw [isWord, Bool.and_eq_true] at hw
        exact hw.1
      -- a word starts neither like a number nor like a string, which are tried before it
      have hminus : c ≠ '-' := by
        rintro rfl
        cases hc
      have hquote : c ≠ '"' := by
        rintro rfl
        cases hc
      rw [List.cons_append] at hread ⊢
      rw [literal?_eq_or, negativeInfinity?_eq_none _ hminus,
        number?_eq_none _ hminus (isDigit_of_startsWord hc), string?_eq_none _ hquote, hread]
      rfl

/-- A word that is not reserved stands for a symbol. -/
theorem wordLiteral_of_not_reserved {w : String}
    (h : (!Literal.reservedWords.contains w) = true) : wordLiteral w = .sym w := by
  rw [Bool.not_eq_true', ← Bool.not_eq_true, List.contains_iff_mem] at h
  have hne {v : String} (hv : v ∈ Literal.reservedWords) : w ≠ v := by
    rintro rfl
    exact h hv
  rw [wordLiteral, if_neg (hne (by decide)), if_neg (hne (by decide)), if_neg (hne (by decide)),
    if_neg (hne (by decide))]

/-- A text that starts like a number is a number or no literal at all. -/
theorem literal?_eq_number? {negative : Bool} {whole : List Char} (hne : whole ≠ [])
    (hwhole : ∀ c ∈ whole, c.isDigit = true) (behind : List Char) :
    literal? (numeral negative whole behind) = number? (numeral negative whole behind) := by
  match negative, whole, hne with
  | true, d :: ds, _ =>
      -- the minus sign alone does not tell it from `-inf`, the digit does
      have hd : d ≠ 'i' := by
        rintro rfl
        exact absurd (hwhole 'i' List.mem_cons_self) (by decide)
      have hnone : negativeInfinity? ('-' :: d :: (ds ++ behind)) = none := by
        rw [negativeInfinity?]
        rintro r hr
        exact hd (List.cons.inj (List.cons.inj hr).2).1
      show literal? ('-' :: d :: (ds ++ behind)) = number? ('-' :: d :: (ds ++ behind))
      rw [literal?_unmarked (by decide) (by decide) (by decide), hnone, word?_eq_none _ rfl,
        Option.or_none]
      rfl
  | false, d :: ds, _ =>
      have hd := hwhole d List.mem_cons_self
      have hne {c : Char} (hc : c.isDigit = false) : d ≠ c := ne_of_isDigit hd hc
      have hstart : Text.startsWord d = false := by
        cases hw : Text.startsWord d with
        | false => rfl
        | true =>
            rw [isDigit_of_startsWord hw] at hd
            cases hd
      show literal? (d :: (ds ++ behind)) = number? (d :: (ds ++ behind))
      rw [literal?_unmarked (hne (by decide)) (hne (by decide)) (hne (by decide)),
        negativeInfinity?_eq_none _ (hne (by decide)), word?_eq_none _ hstart, Option.or_none]
      rfl

/-- A string is read back from its quoted text. -/
theorem literal?_str (t : String) (s : List Char) :
    literal? (Text.quote '"' t.toList ++ s) = some (.str t, s) := by
  have hread : string? (Text.quote '"' t.toList ++ s) = some (.str t, s) := by
    rw [string?, Text.unquote_quote (by decide)]
    show some (Literal.str (String.ofList t.toList), s) = _
    rw [String.ofList_toList]
  rw [Text.quote, List.cons_append] at hread ⊢
  rw [literal?_eq_or, negativeInfinity?_eq_none _ (by decide), number?_eq_none _ (by decide) rfl,
    hread]
  rfl

/-- A symbol is read back from its text between bars. -/
theorem literal?_barred (t : String) (s : List Char) :
    literal? (Text.quote '|' t.toList ++ s) = some (.sym t, s) := by
  have hread : barredSymbol? (Text.quote '|' t.toList ++ s) = some (.sym t, s) := by
    rw [barredSymbol?, Text.unquote_quote (by decide)]
    show some (Literal.sym (String.ofList t.toList), s) = _
    rw [String.ofList_toList]
  rw [Text.quote, List.cons_append] at hread ⊢
  rw [literal?_eq_or, negativeInfinity?_eq_none _ (by decide), number?_eq_none _ (by decide) rfl,
    string?_eq_none _ (by decide), word?_eq_none _ rfl, hread]
  rfl

/-- A double is read back from its text. -/
theorem literal?_floatText (x : Float) {s : List Char} (hs : Stops s) :
    literal? (Number.floatText x ++ s) = some (.float x, s) := by
  cases hnan : x.isNaN with
  | true =>
      rw [Number.floatText, if_pos hnan, Number.eq_nan hnan]
      exact literal?_word rfl hs
  | false =>
      cases hinf : x.isInf with
      | true =>
          rw [Number.floatText, if_neg (by rw [hnan]; exact Bool.false_ne_true), if_pos hinf,
            Number.eq_infinity hinf]
          split
          · exact literal?_word rfl hs
          · show literal? ('-' :: 'i' :: 'n' :: 'f' :: s) = _
            rw [literal?_eq_or]
            rfl
      | false =>
          obtain ⟨negative, whole, fraction, e?, hne, hwhole, hfraction, hfloat, htext, hvalue⟩ :=
            Number.floatText_numeral hnan hinf
          have hread : number? (numeral negative whole
              (fractionText fraction ++ (exponentText e? ++ s))) = some (.float x, s) := by
            rw [number?_numeral hne hwhole (not_isDigit_behind fraction e? hs),
              numberFrom_float negative whole hfraction hfloat hs, hvalue]
          rw [htext, numeral]
          simp only [List.append_assoc]
          exact (literal?_eq_number? hne hwhole _).trans hread

/-- Every literal is read back from its text. -/
theorem literal?_text (l : Literal) {s : List Char} (hs : Stops s) :
    literal? (l.text.toList ++ s) = some (l, s) := by
  match l with
  | .unit =>
      show literal? ('(' :: ')' :: s) = some (.unit, s)
      rw [literal?_parenthesis]
      rfl
  | .bool true => exact literal?_word (w := ['t', 'r', 'u', 'e']) rfl hs
  | .bool false => exact literal?_word (w := ['f', 'a', 'l', 's', 'e']) rfl hs
  | .int n =>
      have hread := number?_intText n hs
      rw [Literal.text, String.toList_ofList]
      rw [intText_append] at hread ⊢
      exact (literal?_eq_number? (digitsOf_ne_nil _) (fun c => isDigit_of_mem_digitsOf) _).trans
        hread
  | .float x =>
      rw [Literal.text, String.toList_ofList]
      exact literal?_floatText x hs
  | .str t =>
      rw [Literal.text, String.toList_ofList]
      exact literal?_str t s
  | .sym t =>
      cases hp : Literal.isPlainSymbol t with
      | true =>
          rw [Literal.text, if_pos hp]
          rw [Literal.isPlainSymbol, Bool.and_eq_true] at hp
          rw [literal?_word hp.1 hs, String.ofList_toList, wordLiteral_of_not_reserved hp.2]
      | false =>
          rw [Literal.text, if_neg (by rw [hp]; exact Bool.false_ne_true), String.toList_ofList]
          exact literal?_barred t s

/-! ## Tokens -/

namespace Token

/-- Blanks are padding. -/
theorem dropPadding_of_blank {c : Char} (h : isBlank c = true) (s : List Char) :
    dropPadding (c :: s) = dropPadding s := by
  rw [dropPadding, dropPaddingFrom, if_neg Bool.false_ne_true, if_pos h]
  rfl

/-- Padding ends at the first character that is neither a blank nor a semicolon. -/
theorem dropPadding_of_visible {c : Char} (hb : isBlank c = false) (hc : c ≠ ';')
    (s : List Char) : dropPadding (c :: s) = c :: s := by
  rw [dropPadding, dropPaddingFrom, if_neg Bool.false_ne_true, if_neg (by rw [hb]; exact
    Bool.false_ne_true), if_neg hc]

/-- A gap adds no tokens. -/
theorem list?_gap {gap : List Char} (hgap : Gap gap) (s : List Char) :
    list? (gap ++ s) = list? s := by
  refine list?_eq_of_dropPadding ?_
  have hspaces (n : Nat) : dropPadding (List.replicate n ' ' ++ s) = dropPadding s := by
    induction n with
    | zero => rfl
    | succ n ih => exact (dropPadding_of_blank (by decide) _).trans ih
  cases hgap with
  | space => exact dropPadding_of_blank (by decide) s
  | newline indent => exact (dropPadding_of_blank (by decide) _).trans (hspaces indent)

/-- A literal at the start of a text is its first token. -/
theorem list?_literal {s rest : List Char} {l : Literal} {ts : List Token}
    (h : literal? s = some (l, rest)) (hrest : list? rest = some ts) :
    list? s = some (.literal l :: ts) := by
  match s, h with
  | [], h => cases h
  | c :: r, h =>
      have hvisible : ¬ (isBlank c = true ∨ c = ';' ∨ c = ')') := by
        intro hc
        rw [literal?_eq_none hc] at h
        cases h
      rw [not_or, not_or, Bool.not_eq_true] at hvisible
      obtain ⟨hb, hs, -⟩ := hvisible
      rw [list?_of_cons (dropPadding_of_visible hb hs r), next?_of_literal h]
      show (list? rest).map _ = _
      rw [hrest]
      rfl

/-- A closing parenthesis is a token. -/
theorem list?_closing {s : List Char} {ts : List Token} (h : list? s = some ts) :
    list? (')' :: s) = some (.closing :: ts) := by
  rw [list?_of_cons (dropPadding_of_visible (by decide) (by decide) s)]
  show (list? s).map _ = _
  rw [h]
  rfl

/-- No padding starts with a word. -/
theorem dropPadding_word {w : List Char} (hw : isWord w = true) (s : List Char) :
    dropPadding (w ++ s) = w ++ s := by
  match w, hw with
  | c :: w, hw =>
      rw [isWord, Bool.and_eq_true] at hw
      have hrange := toNat_of_continuesWord (continuesWord_of_startsWord hw.1)
      refine dropPadding_of_visible (isBlank_eq_false (by omega) (by omega)) ?_ _
      rintro rfl
      exact absurd hrange (by decide)

/-- An opening parenthesis and the word behind its padding are one token, whatever follows. -/
theorem list?_opening_eq_map {r w s : List Char} (hr : dropPadding r = w ++ s)
    (hw : isWord w = true) (hs : Stops s) :
    list? ('(' :: r) = (list? s).map (.opening (String.ofList w) :: ·) := by
  match w, hw with
  | c :: w, hw =>
      have hword := word?_append hw hs
      rw [isWord, Bool.and_eq_true] at hw
      rw [list?_of_cons (dropPadding_of_visible (by decide) (by decide) _),
        next?_of_word hr hw.1 hword]
      rfl

/-- An opening parenthesis is a token together with the word behind it. -/
theorem list?_opening {r w s : List Char} {ts : List Token} (hr : dropPadding r = w ++ s)
    (hw : isWord w = true) (hs : Stops s) (h : list? s = some ts) :
    list? ('(' :: r) = some (.opening (String.ofList w) :: ts) := by
  rw [list?_opening_eq_map hr hw hs, h]
  rfl

end Token

end TreeGrammar.Read

namespace TreeGrammar

/-! ## Tags -/

/-- The tag is the one that its own text is read as. -/
def Tag.Legible (tag : Tag) : Prop :=
  ∀ name, tag = .user name → Text.isWord name.toList = true ∧ Op.ofName? name = none

namespace Tag

/-- The names of operators are words that stand for them. -/
theorem legible_builtin (op : Op) : Legible (.builtin op) := by
  rintro name h
  cases h

/-- The name of a legible tag is a word. -/
theorem Legible.isWord_name {tag : Tag} (h : tag.Legible) : Text.isWord tag.name.toList = true := by
  cases tag with
  | builtin op => cases op <;> decide
  | user name => exact (h name rfl).1

/-- A legible tag is read from its name. -/
theorem Legible.ofName_name {tag : Tag} (h : tag.Legible) : ofName tag.name = tag := by
  cases tag with
  | builtin op => exact Tag.ofName_name op
  | user name =>
      show ofName name = .user name
      rw [ofName, (h name rfl).2]

/-- A word is read as a legible tag. -/
theorem legible_ofName {w : String} (hw : Text.isWord w.toList = true) : (ofName w).Legible := by
  rw [ofName]
  split
  · exact legible_builtin _
  · next hnone =>
      intro name h
      cases h
      exact ⟨hw, hnone⟩

end Tag

/-! ## Trees -/

namespace Tree

open Read (Token Opened Stops forest? stops_cons_blank stops_cons_closing stops_nil)
open Layout (Gap)
open Layout.Form (Spells ItemsSpell)

mutual
/-- The tags of the nodes of a tree, each node before what is below it. -/
def tags : Tree → List Tag
  | leaf _ => []
  | node tag cs => tag :: tagsOf cs
/-- The tags of the nodes of all trees of a list. -/
def tagsOf : List Tree → List Tag
  | [] => []
  | c :: cs => tags c ++ tagsOf cs
end

mutual
/-- The tokens of the text of a tree. -/
def tokens : Tree → List Token
  | leaf v => [.literal v]
  | node tag cs => .opening tag.name :: (tokensOf cs ++ [.closing])
/-- The tokens of the texts of all trees of a list. -/
def tokensOf : List Tree → List Token
  | [] => []
  | c :: cs => tokens c ++ tokensOf cs
end

/-- Text stops where the next gap or the end of the list stands. -/
theorem stops_items {cs : List Tree} {a s : List Char} (h : ItemsSpell (Print.trees cs) a)
    (hs : Stops s) : Stops (a ++ s) := by
  match cs with
  | [] =>
      rw [Print.trees] at h
      cases h
      exact hs
  | c :: cs =>
      rw [Print.trees] at h
      cases h with
      | cons hgap _ _ =>
          cases hgap with
          | space => exact stops_cons_blank (by decide) _
          | newline indent => exact stops_cons_blank (by decide) _

mutual
/-- Every spelling of a tree with legible tags has the tokens of the tree. -/
theorem list?_spells (t : Tree) (ht : ∀ tag ∈ t.tags, tag.Legible) {a s : List Char}
    {ts : List Token} (ha : Spells (Print.tree t) a) (hs : Stops s)
    (hrest : Token.list? s = some ts) : Token.list? (a ++ s) = some (t.tokens ++ ts) := by
  match t with
  | leaf v =>
      rw [Print.tree] at ha
      cases ha
      exact Token.list?_literal (Read.literal?_text v hs) hrest
  | node tag cs =>
      rw [Print.tree] at ha
      cases ha with
      | @list _ _ b hb =>
          have htag : tag.Legible := ht tag List.mem_cons_self
          have hitems := list?_itemsSpell cs (fun x hx => ht x (List.mem_cons_of_mem _ hx)) hb
            (stops_cons_closing s) (Token.list?_closing hrest)
          have hstops := stops_items hb (stops_cons_closing s)
          have hopening := Token.list?_opening (Token.dropPadding_word htag.isWord_name _)
            htag.isWord_name hstops hitems
          rw [String.ofList_toList] at hopening
          simpa only [tokens, Print.tag, List.cons_append, List.append_assoc, List.nil_append]
            using hopening
/-- Every spelling of trees as items has the tokens of the trees. -/
theorem list?_itemsSpell (cs : List Tree) (hcs : ∀ tag ∈ tagsOf cs, tag.Legible)
    {a s : List Char} {ts : List Token} (ha : ItemsSpell (Print.trees cs) a) (hs : Stops s)
    (hrest : Token.list? s = some ts) : Token.list? (a ++ s) = some (tokensOf cs ++ ts) := by
  match cs with
  | [] =>
      rw [Print.trees] at ha
      cases ha
      exact hrest
  | c :: cs =>
      rw [Print.trees] at ha
      cases ha with
      | @cons _ _ gap b rest hgap hb hr =>
          have hmore := list?_itemsSpell cs
            (fun x hx => hcs x (List.mem_append.mpr (Or.inr hx))) hr hs hrest
          have hfirst := list?_spells c
            (fun x hx => hcs x (List.mem_append.mpr (Or.inl hx))) hb (stops_items hr hs) hmore
          rw [List.append_assoc, Token.list?_gap hgap, List.append_assoc, hfirst, tokensOf,
            List.append_assoc]
end

mutual
/-- The tokens of a well-formed tree with legible tags stand for it. -/
theorem forest?_tokens (t : Tree) (ht : ∀ tag ∈ t.tags, tag.Legible) (wf : t.WellFormed)
    (ts : List Token) (stack : List Opened) (trees : List Tree) :
    forest? (t.tokens ++ ts) stack trees = forest? ts stack (t :: trees) := by
  match t with
  | leaf v => rfl
  | node tag cs =>
      rw [WellFormed, isWellFormed, Bool.and_eq_true, Option.isNone_iff_eq_none] at wf
      have hmake : Tree.make (.ofName tag.name) (cs.reverse ++ []).reverse = .ok (node tag cs) := by
        rw [List.append_nil, List.reverse_reverse, (ht tag List.mem_cons_self).ofName_name, make,
          wf.1]
      -- the trees read so far wait on the stack while the children are read
      show forest? (tokensOf cs ++ [.closing] ++ ts) (⟨tag.name, trees⟩ :: stack) [] = _
      rw [List.append_assoc,
        forest?_tokensOf cs (fun x hx => ht x (List.mem_cons_of_mem _ hx)) wf.2]
      show (match Tree.make (.ofName tag.name) (cs.reverse ++ []).reverse with
        | .ok t => forest? ts stack (t :: trees)
        | .error _ => none) = _
      rw [hmake]
/-- The tokens of well-formed trees with legible tags stand for them. -/
theorem forest?_tokensOf (cs : List Tree) (hcs : ∀ tag ∈ tagsOf cs, tag.Legible)
    (wf : areWellFormed cs = true) (ts : List Token) (stack : List Opened) (trees : List Tree) :
    forest? (tokensOf cs ++ ts) stack trees = forest? ts stack (cs.reverse ++ trees) := by
  match cs with
  | [] => rfl
  | c :: cs =>
      rw [areWellFormed, Bool.and_eq_true] at wf
      rw [tokensOf, List.append_assoc,
        forest?_tokens c (fun x hx => hcs x (List.mem_append.mpr (Or.inl hx))) wf.1,
        forest?_tokensOf cs (fun x hx => hcs x (List.mem_append.mpr (Or.inr hx))) wf.2,
        List.reverse_cons, List.append_assoc]
      rfl
end

/-- A well-formed tree with legible tags is read back from its text in any width. -/
theorem parse?_render {t : Tree} (wf : t.WellFormed) (ht : ∀ tag ∈ t.tags, tag.Legible)
    (width : Nat) : parse? (t.render width) = some t := by
  have hspells := Layout.Form.spells_text (Print.tree t) width
  have hlist := list?_spells t ht hspells stops_nil (Token.list?_of_nil rfl)
  have hforest := forest?_tokens t ht wf [] [] []
  simp only [List.append_nil] at hlist hforest
  rw [parse?, ofChars?, render, hlist]
  show (forest? t.tokens [] []).bind _ = _
  rw [hforest]
  rfl

/-! ## What is read has legible tags -/

/-- What is read as a word is one. -/
theorem isWord_of_word? {s w rest : List Char} (h : Text.word? s = some (w, rest)) :
    Text.isWord w = true := by
  match s, h with
  | c :: r, h =>
      by_cases hc : Text.startsWord c
      · rw [Text.word?, if_pos hc] at h
        obtain ⟨rfl, -⟩ := Prod.mk.inj (Option.some.inj h)
        rw [Text.isWord, hc, List.all_takeWhile]
        rfl
      · rw [Text.word?, if_neg hc] at h
        cases h

/-- The head of an opening token is a word. -/
theorem isWord_of_next? {s rest : List Char} {head : String}
    (h : Token.next? s = some (.opening head, rest)) : Text.isWord head.toList = true := by
  rcases Token.next?_cases h with ⟨-, ht⟩ | ⟨l, -, ht⟩ | hopening
  · cases ht
  · cases ht
  · obtain ⟨r, c, r', w, -, -, -, hw, ht⟩ := Token.exists_of_opening? hopening
    cases ht
    rw [String.toList_ofList]
    exact isWord_of_word? hw

/-- All opening tokens of a text have words for heads. -/
theorem isWord_of_mem_list? {s : List Char} {ts : List Token} (h : Token.list? s = some ts)
    {head : String} (hmem : .opening head ∈ ts) : Text.isWord head.toList = true := by
  match hs : Read.dropPadding s with
  | [] =>
      rw [Token.list?_of_nil hs] at h
      cases h
      cases hmem
  | c :: r =>
      rw [Token.list?_of_cons hs] at h
      obtain ⟨⟨t, rest⟩, ht, hrest⟩ := Option.bind_eq_some_iff.1 h
      obtain ⟨ts', hts', rfl⟩ := Option.map_eq_some_iff.1 hrest
      -- a token takes at least one character, so the rest is shorter
      have hlt : rest.length < s.length :=
        Nat.lt_of_lt_of_le (Token.length_next?_lt ht) (hs ▸ Read.length_dropPadding_le s)
      rcases List.mem_cons.mp hmem with rfl | hmem
      · exact isWord_of_next? ht
      · exact isWord_of_mem_list? hts' hmem
termination_by s.length

/-- Trees whose tags are all legible. -/
def AllLegible (ts : List Tree) : Prop :=
  ∀ t ∈ ts, ∀ tag ∈ t.tags, tag.Legible

/-- The tags of a list are those of its trees. -/
theorem mem_tagsOf {tag : Tag} {cs : List Tree} : tag ∈ tagsOf cs ↔ ∃ c ∈ cs, tag ∈ c.tags := by
  induction cs with
  | nil => simp [tagsOf]
  | cons c cs ih => simp [tagsOf, ih]

/-- A node under a word has legible tags if its children have. -/
theorem AllLegible.make {head : String} {cs : List Tree} {t : Tree} (hcs : AllLegible cs)
    (hhead : Text.isWord head.toList = true) (h : Tree.make (.ofName head) cs = .ok t) :
    ∀ tag ∈ t.tags, tag.Legible := by
  unfold Tree.make at h
  split at h
  · cases h
    intro tag htag
    rcases List.mem_cons.mp htag with rfl | htag
    · exact Tag.legible_ofName hhead
    · obtain ⟨c, hc, htag⟩ := mem_tagsOf.mp htag
      exact hcs c hc tag htag
  · cases h

/-- What holds of leaves, and of nodes under a word if it holds of their children, holds of the
trees that tokens stand for. -/
theorem forest?_all {P : Tree → Prop} (hleaf : ∀ l, P (leaf l))
    (hmake : ∀ {head cs t}, Text.isWord head.toList = true → (∀ c ∈ cs, P c) →
      Tree.make (.ofName head) cs = .ok t → P t)
    {ts : List Token} {stack : List Opened} {trees result : List Tree}
    (h : forest? ts stack trees = some result)
    (hheads : ∀ head, .opening head ∈ ts → Text.isWord head.toList = true)
    (hstack : ∀ o ∈ stack, Text.isWord o.head.toList = true ∧ ∀ t ∈ o.before, P t)
    (htrees : ∀ t ∈ trees, P t) : ∀ t ∈ result, P t := by
  fun_induction forest? ts stack trees with
  | case1 trees =>
      cases h
      exact htrees
  | case2 => cases h
  | case3 l rest stack trees ih =>
      refine ih h (fun head hh => hheads head (List.mem_cons_of_mem _ hh)) hstack ?_
      intro t ht
      rcases List.mem_cons.mp ht with rfl | ht
      · exact hleaf l
      · exact htrees t ht
  | case4 head rest stack trees ih =>
      refine ih h (fun head hh => hheads head (List.mem_cons_of_mem _ hh)) ?_ ?_
      · intro o ho
        rcases List.mem_cons.mp ho with rfl | ho
        · exact ⟨hheads head List.mem_cons_self, htrees⟩
        · exact hstack o ho
      · intro t ht
        cases ht
  | case5 => cases h
  -- the list that is closed becomes a node of the list around it
  | case6 rest o stack trees t ht ih =>
      obtain ⟨hhead, hbefore⟩ := hstack o List.mem_cons_self
      refine ih h (fun head hh => hheads head (List.mem_cons_of_mem _ hh))
        (fun o' ho => hstack o' (List.mem_cons_of_mem _ ho)) ?_
      intro t' ht'
      rcases List.mem_cons.mp ht' with rfl | ht'
      · refine hmake hhead ?_ ht
        intro c hc
        exact htrees c (List.mem_reverse.mp hc)
      · exact hbefore t' ht'
  | case7 => cases h

/-- A text is read as a tree if its tokens stand for this tree alone. -/
theorem parse?_eq_some_iff {s : String} {t : Tree} :
    parse? s = some t ↔ ∃ ts, Token.list? s.toList = some ts ∧ forest? ts [] [] = some [t] := by
  constructor
  · intro h
    obtain ⟨ts, hts, h⟩ := Option.bind_eq_some_iff.1 h
    obtain ⟨result, hresult, h⟩ := Option.bind_eq_some_iff.1 h
    split at h
    · cases h
      exact ⟨ts, hts, hresult⟩
    · cases h
  · rintro ⟨ts, hts, hforest⟩
    rw [parse?, ofChars?, hts]
    show (forest? ts [] []).bind _ = _
    rw [hforest]
    rfl

/-- What holds of leaves, and of nodes under a word if it holds of their children, holds of every
tree that is read. -/
theorem parse?_all {P : Tree → Prop} (hleaf : ∀ l, P (leaf l))
    (hmake : ∀ {head cs t}, Text.isWord head.toList = true → (∀ c ∈ cs, P c) →
      Tree.make (.ofName head) cs = .ok t → P t)
    {s : String} {t : Tree} (h : parse? s = some t) : P t := by
  obtain ⟨ts, hts, hforest⟩ := parse?_eq_some_iff.mp h
  exact forest?_all hleaf hmake hforest (fun head hh => isWord_of_mem_list? hts hh)
    (fun o ho => nomatch ho) (fun t ht => nomatch ht) t List.mem_cons_self

/-- The tags of a tree that is read are legible. -/
theorem legible_of_parse? {s : String} {t : Tree} (h : parse? s = some t) :
    ∀ tag ∈ t.tags, tag.Legible :=
  parse?_all (P := fun t => ∀ tag ∈ t.tags, tag.Legible) (fun _ _ htag => nomatch htag)
    (fun hhead hcs ht => AllLegible.make hcs hhead ht) h

/-- A well-formed tree is read back from its text, whatever the width, exactly when each of its user
tags is a word that no operator bears.  Nothing is asked of the literals. -/
theorem parse_render_iff (t : Tree) (wf : t.WellFormed) (width : Nat) :
    parse? (t.render width) = some t
      ↔ ∀ name, Tag.user name ∈ t.tags →
        Text.isWord name.toList = true ∧ ∀ op : Op, op.name ≠ name := by
  constructor
  · intro h name hmem
    obtain ⟨hword, hop⟩ := legible_of_parse? h _ hmem name rfl
    refine ⟨hword, ?_⟩
    rintro op rfl
    rw [Op.ofName?_name] at hop
    cases hop
  · intro h
    refine parse?_render wf ?_ width
    rintro tag htag name rfl
    obtain ⟨hword, hop⟩ := h name htag
    refine ⟨hword, List.find?_eq_none.mpr ?_⟩
    intro op _ heq
    exact hop op (beq_iff_eq.mp heq)

/-- Odd literals come back even if every line breaks; a user tag with an operator's name does
not. -/
theorem parse_render_odd_literals :
    parse? (render (.node (.user "f") [.leaf (.sym "a|;(\n"), .leaf (.str "\"\\"),
          .node (.builtin .negate) [.leaf (.float 0.1)]]) 4)
        = some (.node (.user "f") [.leaf (.sym "a|;(\n"), .leaf (.str "\"\\"),
          .node (.builtin .negate) [.leaf (.float 0.1)]])
      ∧ ¬ parse? (render (.node (.user "negate") [.leaf .unit]) 80)
        = some (.node (.user "negate") [.leaf .unit]) := by
  constructor
  · refine (parse_render_iff _ (by decide) 4).mpr ?_
    intro name hmem
    have hname : name = "f" := by simpa [tags, tagsOf] using hmem
    subst hname
    refine ⟨by decide, ?_⟩
    intro op
    cases op <;> decide
  · intro h
    exact ((parse_render_iff _ (by decide) 80).mp h "negate" (List.mem_cons_self ..)).2 .negate rfl

end Tree

end TreeGrammar
