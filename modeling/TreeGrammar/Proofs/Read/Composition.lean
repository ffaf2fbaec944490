import Mathlib
import TreeGrammar.Proofs.Read.NormalForm

/-! # Putting texts together

    A text is read in the same way alone and as an item of a list, and padding around
    it makes no difference.  `Padding` describes blanks and comments without a reader;
    in `ClosedPadding` every comment ends with its line, so that text can follow. -/

namespace TreeGrammar

namespace Read

open Text (isBlank isWord)

/-! ## Padding -/

/-- Blanks, and comments that end with their lines. -/
inductive ClosedPadding : List Char → Prop where
  | nil : ClosedPadding []
  | blank {c : Char} {p : List Char} : isBlank c = true → ClosedPadding p → ClosedPadding (c :: p)
  | comment {body p : List Char} :
      '\n' ∉ body → ClosedPadding p → ClosedPadding (';' :: (body ++ '\n' :: p))

/-- Blanks and comments, the last of which may end with the text. -/
inductive Padding : List Char → Prop where
  | closed {p : List Char} : ClosedPadding p → Padding p
  | comment {p body : List Char} : ClosedPadding p → '\n' ∉ body → Padding (p ++ ';' :: body)

/-- A comment goes on up to the end of its line. -/
theorem dropPaddingFrom_comment {body : List Char} (h : '\n' ∉ body) (s : List Char) :
    dropPaddingFrom true (body ++ s) = dropPaddingFrom true s := by
  induction body with
  | nil => rfl
  | cons c body ih =>
      obtain ⟨hc, hbody⟩ := List.ne_and_not_mem_of_not_mem_cons h
      have hgoes : (c != '\n') = true := bne_iff_ne.mpr (Ne.symm hc)
      rw [List.cons_append, dropPaddingFrom, if_pos rfl, hgoes]
      exact ih hbody

namespace ClosedPadding

variable {p : List Char}

/-- Closed padding is dropped in front of anything. -/
theorem dropPadding_append (hp : ClosedPadding p) (s : List Char) :
    dropPadding (p ++ s) = dropPadding s := by
  induction hp with
  | nil => rfl
  | blank hc _ ih => exact (Token.dropPadding_of_blank hc _).trans ih
  | @comment body p hbody _ ih =>
      show dropPaddingFrom true (body ++ '\n' :: p ++ s) = dropPadding s
      rw [List.append_assoc, dropPaddingFrom_comment hbody]
      exact ih

/-- Nothing of it is left, even if a comment was open before it. -/
theorem dropPaddingFrom_eq_nil (hp : ClosedPadding p) (inComment : Bool) :
    dropPaddingFrom inComment p = [] := by
  induction hp generalizing inComment with
  | nil => rfl
  | @blank c p hc _ ih =>
      cases inComment with
      | true => exact ih (c != '\n')
      | false =>
          rw [dropPaddingFrom, if_neg Bool.false_ne_true, if_pos hc]
          exact ih false
  | @comment body p hbody _ ih =>
      have hline : dropPaddingFrom true (body ++ '\n' :: p) = [] := by
        rw [dropPaddingFrom_comment hbody]
        exact ih false
      cases inComment with
      | true => exact hline
      | false => exact hline

/-- Closed padding keeps what is around it apart. -/
theorem apart (hp : ClosedPadding p) : Apart p := by
  cases hp with
  | nil => exact apart_nil
  | blank hc _ => exact apart_cons_blank hc _
  | comment _ _ => exact apart_cons_semicolon _

end ClosedPadding

namespace Padding

variable {q : List Char}

/-- Padding is dropped as a whole, in a comment or not. -/
theorem dropPaddingFrom_eq_nil (hq : Padding q) (inComment : Bool) :
    dropPaddingFrom inComment q = [] := by
  cases hq with
  | closed hp => exact hp.dropPaddingFrom_eq_nil inComment
  | @comment p body hp hbody =>
      obtain ⟨inComment', h⟩ :=
        dropPaddingFrom_append_of_nil (hp.dropPaddingFrom_eq_nil inComment) (';' :: body)
      have hend : dropPaddingFrom true body = [] := by
        rw [← List.append_nil body, dropPaddingFrom_comment hbody]
        rfl
      rw [h]
      cases inComment' with
      | true => exact hend
      | false => exact hend

/-- Padding keeps what is around it apart. -/
theorem apart (hq : Padding q) : Apart q := by
  cases hq with
  | closed hp => exact hp.apart
  | @comment p body hp hbody =>
      cases hp with
      | nil => exact apart_cons_semicolon _
      | blank hc _ => exact apart_cons_blank hc _
      | comment _ _ => exact apart_cons_semicolon _

end Padding

namespace Token

/-- Padding behind a text adds no tokens, even if it is first taken up by an open comment. -/
theorem list?_append_padding {s q : List Char} {ts : List Token} (h : list? s = some ts)
    (hq : Padding q) : list? (s ++ q) = some ts := by
  have hnone (inComment : Bool) : list? (dropPaddingFrom inComment q) = some [] := by
    rw [hq.dropPaddingFrom_eq_nil inComment]
    exact list?_of_nil rfl
  rw [list?_followed hq.apart h hnone]
  exact congrArg some (List.append_nil ts)

/-- A text that ends with its line has its tokens in front of those of what follows. -/
theorem list?_append_line {s : List Char} {ts : List Token} (h : list? s = some ts)
    (r : List Char) : list? (s ++ '\n' :: r) = (list? r).map (ts ++ ·) := by
  have hline (inComment : Bool) : list? (dropPaddingFrom inComment ('\n' :: r)) = list? r := by
    have hdrop : dropPaddingFrom inComment ('\n' :: r) = dropPadding r := by
      cases inComment with
      | true => rfl
      | false => exact dropPadding_of_blank (c := '\n') (by decide) r
    rw [hdrop]
    exact list?_eq_of_dropPadding (dropPadding_dropPaddingFrom false r)
  exact list?_followed (apart_cons_blank (by decide) r) h hline

end Token

end Read

namespace Tree

open Read (Token ClosedPadding Padding forest? stops_cons_blank)

/-! ## Lists of texts -/

/-- A list with its head behind padding, and each item on lines of its own. -/
def listText (pad head : String) (items : List String) : String :=
  "(" ++ pad ++ head ++ "\n" ++ String.join (items.map (· ++ "\n")) ++ ")"

/-- The characters of a list are those of its head and of its items, a line for each. -/
theorem toList_listText (pad head : String) (items : List String) :
    (listText pad head items).toList = '(' :: (pad.toList ++ (head.toList ++ '\n' ::
      (items.flatMap (fun s => s.toList ++ ['\n']) ++ [')']))) := by
  simp [listText, String.toList_join, List.flatMap_map]

/-- The items of a list have the tokens of their trees, whatever follows. -/
theorem list?_items {items : List (String × Tree)} (h : ∀ p ∈ items, parse? p.1 = some p.2)
    (s : List Char) :
    Token.list? ((items.map Prod.fst).flatMap (fun s => s.toList ++ ['\n']) ++ s)
      = (Token.list? s).map (tokensOf (items.map Prod.snd) ++ ·) := by
  induction items with
  | nil =>
      show Token.list? s = (Token.list? s).map ([] ++ ·)
      cases Token.list? s <;> rfl
  | cons p items ih =>
      have hitem := list?_of_parse? (h p List.mem_cons_self)
      have hitems := ih fun p' hp' => h p' (List.mem_cons_of_mem _ hp')
      have hboth := Token.list?_append_line hitem
        ((items.map Prod.fst).flatMap (fun s => s.toList ++ ['\n']) ++ s)
      rw [hitems, Option.map_map] at hboth
      simpa only [List.map_cons, List.flatMap_cons, List.append_assoc, List.cons_append,
        List.nil_append, tokensOf, Function.comp_def] using hboth

/-- A list starts with the token of its head, whatever follows on the next line. -/
theorem list?_head {pad head : String} (hpad : ClosedPadding pad.toList)
    (hhead : Text.isWord head.toList = true) (s : List Char) :
    Token.list? ('(' :: (pad.toList ++ (head.toList ++ '\n' :: s)))
      = (Token.list? s).map (.opening head :: ·) := by
  have hdrop : Read.dropPadding (pad.toList ++ (head.toList ++ '\n' :: s))
      = head.toList ++ '\n' :: s :=
    (hpad.dropPadding_append _).trans (Token.dropPadding_word hhead _)
  have hline : Token.list? ('\n' :: s) = Token.list? s :=
    Token.list?_eq_of_dropPadding (Token.dropPadding_of_blank (by decide) s)
  rw [Token.list?_opening_eq_map hdrop hhead (stops_cons_blank (by decide) _), hline,
    String.ofList_toList]

/-- The tokens of a list are its opening, those of the items and its end. -/
theorem list?_listText {pad head : String} (hpad : ClosedPadding pad.toList)
    (hhead : Text.isWord head.toList = true) {items : List (String × Tree)}
    (h : ∀ p ∈ items, parse? p.1 = some p.2) :
    Token.list? (listText pad head (items.map Prod.fst)).toList
      = some (.opening head :: (tokensOf (items.map Prod.snd) ++ [.closing])) := by
  rw [toList_listText, list?_head hpad hhead, list?_items h,
    Token.list?_closing (Token.list?_of_nil rfl)]
  rfl

/-- The tokens of a list of trees stand for its node, if there is such a node. -/
theorem forest?_list {cs : List Tree} (hcs : ∀ c ∈ cs, ∃ s, parse? s = some c) (head : String) :
    forest? (.opening head :: (tokensOf cs ++ [.closing])) [] []
      = (make (.ofName head) cs).toOption.map ([·]) := by
  have hlegible : ∀ tag ∈ tagsOf cs, tag.Legible := by
    intro tag htag
    obtain ⟨c, hc, htag⟩ := mem_tagsOf.mp htag
    obtain ⟨s, hs⟩ := hcs c hc
    exact legible_of_parse? hs tag htag
  have wf : areWellFormed cs = true := by
    refine areWellFormed_iff.mpr fun c hc => ?_
    obtain ⟨s, hs⟩ := hcs c hc
    exact wellFormed_of_parse? hs
  show forest? (tokensOf cs ++ [.closing]) [⟨head, []⟩] [] = _
  rw [forest?_tokensOf cs hlegible wf]
  rw [forest?, List.append_nil, List.reverse_reverse]
  cases make (.ofName head) cs <;> rfl

/-- A list of texts that are read as trees is read as their node, if there is such a node. -/
theorem parse?_listText {pad head : String} {items : List (String × Tree)}
    (hpad : ClosedPadding pad.toList) (hhead : Text.isWord head.toList = true)
    (h : ∀ p ∈ items, parse? p.1 = some p.2) :
    parse? (listText pad head (items.map Prod.fst))
      = (make (.ofName head) (items.map Prod.snd)).toOption := by
  have hlist := list?_listText hpad hhead h
  have hread : ∀ c ∈ items.map Prod.snd, ∃ s, parse? s = some c := by
    intro c hc
    obtain ⟨p, hp, rfl⟩ := List.mem_map.mp hc
    exact ⟨p.1, h p hp⟩
  rw [parse?, ofChars?, hlist]
  show (forest? _ [] []).bind _ = _
  rw [forest?_list hread head]
  cases make (.ofName head) (items.map Prod.snd) <;> rfl

/-- A list of texts that are read as trees is read as the node of these trees under its head, if
there is such a node, and otherwise not at all; and whatever padding stands around a text, it is
read as the same tree. -/
theorem parse?_compositional :
    (∀ (pad head : String) (items : List (String × Tree)), ClosedPadding pad.toList →
        Text.isWord head.toList = true → (∀ p ∈ items, parse? p.1 = some p.2) →
        parse? (listText pad head (items.map Prod.fst))
          = (make (.ofName head) (items.map Prod.snd)).toOption)
      ∧ ∀ (s p q : String) (t : Tree), parse? s = some t → ClosedPadding p.toList →
        Padding q.toList → parse? (p ++ s ++ q) = some t := by
  constructor
  · intro pad head items hpad hhead h
    exact parse?_listText hpad hhead h
  · intro s p q t h hp hq
    obtain ⟨ts, hts, hforest⟩ := parse?_eq_some_iff.mp h
    refine parse?_eq_some_iff.mpr ⟨ts, ?_, hforest⟩
    rw [String.toList_append, String.toList_append, List.append_assoc,
      Token.list?_eq_of_dropPadding (hp.dropPadding_append _)]
    exact Token.list?_append_padding hts hq

/-- Comments with parentheses in them end with their lines; a head that does not take two items
refuses them; and a comment with a quotation mark stands in front of a text. -/
theorem parse?_compositional_comments :
    parse? (listText ";)\n" "f" ["1;(", "|a b|"])
        = some (node (.user "f") [leaf (.int 1), leaf (.sym "a b")])
      ∧ parse? (listText "" "negate" ["1;(", "|a b|"]) = none
      ∧ parse? (";\"\n" ++ "|a b|" ++ " ;(") = some (leaf (.sym "a b")) := by
  have hone : parse? "1;(" = some (leaf (.int 1)) := by cbv
  have hbarred : parse? "|a b|" = some (leaf (.sym "a b")) := by cbv
  have hitems : ∀ p ∈ [("1;(", leaf (.int 1)), ("|a b|", leaf (.sym "a b"))],
      parse? p.1 = some p.2 := by
    intro p hp
    simp only [List.mem_cons, List.not_mem_nil, or_false] at hp
    rcases hp with rfl | rfl
    · exact hone
    · exact hbarred
  have hcomment : ClosedPadding [';', ')', '\n'] := @ClosedPadding.comment [')'] [] (by decide) .nil
  have hquote : ClosedPadding [';', '"', '\n'] := @ClosedPadding.comment ['"'] [] (by decide) .nil
  have hopen : Padding [' ', ';', '('] :=
    @Padding.comment [' '] ['('] (.blank rfl .nil) (by decide)
  refine ⟨?_, ?_, ?_⟩
  · refine (parse?_compositional.1 ";)\n" "f" _ hcomment rfl hitems).trans ?_
    cbv
  · refine (parse?_compositional.1 "" "negate" _ .nil rfl hitems).trans ?_
    cbv
  · exact parse?_compositional.2 _ _ _ _ hbarred hquote hopen

end Tree

end TreeGrammar
