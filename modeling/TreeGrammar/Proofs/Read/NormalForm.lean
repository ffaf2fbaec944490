import TreeGrammar.Proofs.Read.RoundTrip
import TreeGrammar.Proofs.Tree.WellFormed

/-! # What is read — trees that print and read back

    Reading gives no tree that printing could not express: every node has a shape that
    `Tree.make` accepts, every tag is legible, and the tokens of the text are those of
    the tree.  So the text of the tree is a normal form of every text it is read from. -/

namespace TreeGrammar

/-- A tag read from a name has that name. -/
theorem Tag.name_ofName (s : String) : (ofName s).name = s := by
  rw [ofName]
  split
  · next op h =>
      have hname := List.find?_some h
      exact beq_iff_eq.mp hname
  · rfl

namespace Tree

open Read (Token Opened forest? stops_cons_blank stops_cons_closing)

/-- A tree that is read is well-formed. -/
theorem wellFormed_of_parse? {s : String} {t : Tree} (h : parse? s = some t) : t.WellFormed :=
  parse?_all wellFormed_leaf (fun _ hcs ht => wellFormed_of_make ht hcs) h

/-! ## The tokens of what is read -/

/-- The tokens of two lists of trees follow one another. -/
theorem tokensOf_append (cs ds : List Tree) : tokensOf (cs ++ ds) = tokensOf cs ++ tokensOf ds := by
  induction cs with
  | nil => rfl
  | cons c cs ih => simp only [List.cons_append, tokensOf, ih, List.append_assoc]

/-- The tokens behind lists still open and trees already read, the last one first. -/
def tokensBehind : List Opened → List Tree → List Token
  | [], trees => tokensOf trees.reverse
  | o :: stack, trees => tokensBehind stack o.before ++ .opening o.head :: tokensOf trees.reverse

/-- The tokens of a tree that is done follow those of the trees before it. -/
theorem tokensBehind_cons (stack : List Opened) (t : Tree) (trees : List Tree) :
    tokensBehind stack (t :: trees) = tokensBehind stack trees ++ t.tokens := by
  cases stack <;> simp [tokensBehind, tokensOf_append, tokensOf]

/-- Reading loses no token. -/
theorem tokensBehind_append_of_forest? {ts : List Token} {stack : List Opened}
    {trees result : List Tree} (h : forest? ts stack trees = some result) :
    tokensBehind stack trees ++ ts = tokensOf result.reverse := by
  fun_induction forest? ts stack trees with
  | case1 trees =>
      cases h
      exact List.append_nil _
  | case2 => cases h
  | case3 l rest stack trees ih =>
      rw [← ih h, tokensBehind_cons, List.append_assoc]
      rfl
  | case4 head rest stack trees ih =>
      rw [← ih h, tokensBehind, List.append_assoc]
      rfl
  | case5 => cases h
  | case6 rest o stack trees t ht ih =>
      obtain ⟨-, rfl⟩ := make_eq_ok_iff.mp ht
      rw [← ih h, tokensBehind_cons, tokensBehind, tokens, Tag.name_ofName]
      simp only [List.append_assoc, List.cons_append, List.nil_append]
  | case7 => cases h

/-- The tokens of a text that is read as a tree are those of the tree. -/
theorem list?_of_parse? {s : String} {t : Tree} (h : parse? s = some t) :
    Token.list? s.toList = some t.tokens := by
  obtain ⟨ts, hts, hforest⟩ := parse?_eq_some_iff.mp h
  have htokens : [] ++ ts = tokensOf [t] := tokensBehind_append_of_forest? hforest
  rw [hts, ← List.nil_append ts, htokens, tokensOf, tokensOf, List.append_nil]

/-- Whatever text a tree is read from, it is well-formed, its user tags are words that no operator
bears, and its own text is read as this very tree in every width; so what is read from there prints
as that text again. -/
theorem parse_normal_form (s : String) (t : Tree) (h : parse? s = some t) (width : Nat) :
    t.WellFormed
      ∧ (∀ name, Tag.user name ∈ t.tags →
          Text.isWord name.toList = true ∧ ∀ op : Op, op.name ≠ name)
      ∧ parse? (t.render width) = some t
      ∧ ∀ t', parse? (t.render width) = some t' → t'.render width = t.render width := by
  have wf := wellFormed_of_parse? h
  have hlegible := legible_of_parse? h
  have hback := parse?_render wf hlegible width
  refine ⟨wf, ?_, hback, ?_⟩
  · intro name hmem
    obtain ⟨hword, hop⟩ := hlegible _ hmem name rfl
    refine ⟨hword, ?_⟩
    rintro op rfl
    rw [Op.ofName?_name] at hop
    cases hop
  · intro t' ht'
    rw [hback] at ht'
    cases ht'
    rfl

/-- A comment with a parenthesis in it, an infinity and a string without a blank between them, and a
NaN. -/
theorem parse_normal_form_comment :
    parse? "(f ;)\n-inf\"|\"nan)"
        = some (node (.user "f") [leaf (.float (-Number.infinity)), leaf (.str "|"),
            leaf (.float Number.nan)])
      ∧ parse? (render (node (.user "f") [leaf (.float (-Number.infinity)), leaf (.str "|"),
            leaf (.float Number.nan)]) 3)
        = some (node (.user "f") [leaf (.float (-Number.infinity)), leaf (.str "|"),
            leaf (.float Number.nan)]) := by
  have hclosing : Token.list? [')'] = some [.closing] :=
    Token.list?_closing (Token.list?_of_nil rfl)
  have hnan : Token.list? ['n', 'a', 'n', ')'] = some [.literal (.float Number.nan), .closing] :=
    Token.list?_literal (Read.literal?_word (w := ['n', 'a', 'n']) rfl (stops_cons_closing []))
      hclosing
  have hstring : Token.list? ['"', '|', '"', 'n', 'a', 'n', ')']
      = some [.literal (.str "|"), .literal (.float Number.nan), .closing] :=
    Token.list?_literal (Read.literal?_str "|" _) hnan
  have hinf : Token.list? ['-', 'i', 'n', 'f', '"', '|', '"', 'n', 'a', 'n', ')']
      = some [.literal (.float (-Number.infinity)), .literal (.str "|"),
          .literal (.float Number.nan), .closing] :=
    Token.list?_literal (Read.literal?_eq_or _) hstring
  have hcomment (s : List Char) :
      Token.list? (' ' :: ';' :: ')' :: '\n' :: s) = Token.list? s :=
    Token.list?_eq_of_dropPadding rfl
  have hopening := Token.list?_opening (w := ['f']) (Token.dropPadding_word rfl _) rfl
    (stops_cons_blank (by decide) _) ((hcomment _).trans hinf)
  suffices h : parse? "(f ;)\n-inf\"|\"nan)" = some _ from ⟨h, (parse_normal_form _ _ h 3).2.2.1⟩
  exact parse?_eq_some_iff.mpr ⟨_, hopening, rfl⟩

end Tree

end TreeGrammar
