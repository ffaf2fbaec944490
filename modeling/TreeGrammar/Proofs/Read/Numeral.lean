import TreeGrammar.Proofs.Number.Integer
import TreeGrammar.Proofs.Read.Composition

/-! # Numbers in texts — read exactly, or not at all

    A number is digits behind an optional minus, with a fraction or an exponent if they
    are complete.  Without them it is an integer, and there is no text for an integer
    that 64 bits cannot hold: no shorter part of its digits is taken, and no other
    literal starts like a number.  So the text around it, which is read token by token,
    cannot be read either, however deep the number stands in it. -/

namespace TreeGrammar

namespace Read

/-! ## Numbers as they are written -/

/-- A complete exponent: its mark, its sign, if there is one, and its digits. -/
structure Exponent where
  mark : Char
  sign : List Char
  digits : List Char
  isMark : mark = 'e' ∨ mark = 'E'
  isSign : sign = [] ∨ sign = ['+'] ∨ sign = ['-']
  digits_ne_nil : digits ≠ []
  isDigit_digits : ∀ c ∈ digits, c.isDigit = true

namespace Exponent

variable (e : Exponent)

def text : List Char :=
  e.mark :: (e.sign ++ e.digits)

def value : Int :=
  signed (e.sign == ['-']) e.digits

end Exponent

/-- A number: a minus or none, digits, those of a fraction, if there is one, and an exponent, if there
is one. -/
structure Numeral where
  negative : Bool
  whole : List Char
  fraction : List Char
  exponent? : Option Exponent
  whole_ne_nil : whole ≠ []
  isDigit_whole : ∀ c ∈ whole, c.isDigit = true
  isDigit_fraction : ∀ c ∈ fraction, c.isDigit = true

namespace Numeral

variable (n : Numeral)

/-- What is written behind the whole part. -/
def behind : List Char :=
  fractionText n.fraction ++ n.exponent?.elim [] Exponent.text

def text : List Char :=
  numeral n.negative n.whole n.behind

/-- The number has neither a fraction nor an exponent. -/
def IsInteger : Prop :=
  n.fraction = [] ∧ n.exponent? = none

instance : Decidable n.IsInteger :=
  inferInstanceAs (Decidable (_ ∧ n.exponent? = none))

/-- The value of an integer. -/
def integer : Int :=
  signed n.negative n.whole

/-- The double for any other number. -/
def float : Float :=
  floatOf n.negative n.whole n.fraction (n.exponent?.elim 0 Exponent.value)

/-- The literal that the number stands for; only an integer may have none. -/
def literal? : Option Literal :=
  if n.IsInteger then (Number.int64? n.integer).map .int else some (.float n.float)

/-- The number ends before the text: no digit follows, and no complete part that the number could
still have. -/
structure Ends (rest : List Char) : Prop where
  digit : ∀ c ∈ rest.head?, c.isDigit = false
  fraction : n.IsInteger → ∀ d s, d.isDigit = true → rest ≠ '.' :: d :: s
  exponent : n.exponent? = none → ∀ (e : Exponent) s, rest ≠ e.text ++ s

end Numeral

/-! ## How numbers are read -/

/-- What is taken as digits. -/
theorem of_digits?_eq_some {s ds rest : List Char} (h : digits? s = some (ds, rest)) :
    s = ds ++ rest ∧ ds ≠ [] ∧ ∀ c ∈ ds, c.isDigit = true := by
  rw [digits?] at h
  split at h
  · cases h
  · next hne =>
      cases h
      refine ⟨List.takeWhile_append_dropWhile.symm, fun hnil => hne ?_, ?_⟩
      · rw [hnil]
        rfl
      · exact fun c hc => List.mem_takeWhile_imp hc

/-- A sign that is taken was written, and nothing else was. -/
theorem exists_of_sign (s : List Char) :
    ∃ written, s = written ++ (sign s).2
      ∧ (written = [] ∨ written = ['+'] ∨ written = ['-']) := by
  unfold sign
  split
  · exact ⟨['-'], rfl, Or.inr (Or.inr rfl)⟩
  · exact ⟨['+'], rfl, Or.inr (Or.inl rfl)⟩
  · exact ⟨[], rfl, Or.inl rfl⟩

namespace Exponent

variable (e : Exponent)

/-- The mark of an exponent is no digit. -/
theorem isDigit_mark : e.mark.isDigit = false := by
  rcases e.isMark with h | h
  · rw [h]
    decide
  · rw [h]
    decide

/-- A sign is read as it is written, in front of digits. -/
theorem sign_append (s : List Char) :
    Read.sign (e.sign ++ (e.digits ++ s)) = (e.sign == ['-'], e.digits ++ s) := by
  rcases e.isSign with h | h | h
  · rw [h]
    exact @sign_numeral false _ e.digits_ne_nil e.isDigit_digits s
  · rw [h]
    rfl
  · rw [h]
    rfl

/-- A complete exponent is taken if its digits end where they were written to end. -/
theorem exponent?_text {s : List Char} (hs : ∀ c ∈ s.head?, c.isDigit = false) :
    exponent? (e.text ++ s) = some (e.value, s) := by
  rw [text, List.cons_append, List.append_assoc, exponent?, if_pos e.isMark, e.sign_append,
    digits?_append e.digits_ne_nil e.isDigit_digits hs]
  rfl

end Exponent

/-- Only a complete exponent is taken. -/
theorem exists_of_exponent? {s rest : List Char} {z : Int} (h : exponent? s = some (z, rest)) :
    ∃ e : Exponent, s = e.text ++ rest := by
  match s, h with
  | c :: r, h =>
      rw [exponent?] at h
      split at h
      · next hmark =>
          obtain ⟨⟨ds, r'⟩, hdigits, he⟩ := Option.map_eq_some_iff.1 h
          obtain ⟨-, rfl⟩ := Prod.mk.inj he
          obtain ⟨hr, hne, hds⟩ := of_digits?_eq_some hdigits
          obtain ⟨written, hwritten, hsign⟩ := exists_of_sign r
          refine ⟨⟨c, written, ds, hmark, hsign, hne, hds⟩, ?_⟩
          rw [Exponent.text, List.cons_append, List.append_assoc, ← hr, ← hwritten]
      · cases h

/-- Only a complete fraction is taken. -/
theorem exists_of_fraction? {s ds rest : List Char} (h : fraction? s = some (ds, rest)) :
    ∃ d r, d.isDigit = true ∧ s = '.' :: d :: r := by
  unfold fraction? at h
  split at h
  · next r =>
      obtain ⟨hr, hne, hds⟩ := of_digits?_eq_some h
      cases ds with
      | nil => exact absurd rfl hne
      | cons d ds => exact ⟨d, ds ++ rest, hds d List.mem_cons_self, congrArg ('.' :: ·) hr⟩
  · cases h

namespace Numeral

variable (n : Numeral)

section Ends

variable {n} {rest : List Char} (h : n.Ends rest)
include h

/-- An exponent, or its absence, is read as it is written. -/
theorem Ends.exponent?_eq :
    Read.exponent? (n.exponent?.elim [] Exponent.text ++ rest)
      = n.exponent?.map fun e => (e.value, rest) := by
  match he : n.exponent? with
  | some e => exact e.exponent?_text h.digit
  | none =>
      show Read.exponent? rest = none
      -- an exponent that is taken here would have been one of the number
      refine Option.eq_none_iff_forall_not_mem.mpr fun (z, r) hr => ?_
      obtain ⟨e, hrest⟩ := exists_of_exponent? hr
      exact h.exponent he e r hrest

/-- No digit stands behind the fraction. -/
theorem Ends.not_isDigit :
    ∀ c ∈ (n.exponent?.elim [] Exponent.text ++ rest).head?, c.isDigit = false := by
  match n.exponent? with
  | some e =>
      intro c hc
      obtain rfl : e.mark = c := Option.some.inj hc
      exact e.isDigit_mark
  | none => exact h.digit

/-- No digit stands behind the whole part. -/
theorem Ends.not_isDigit_behind : ∀ c ∈ (n.behind ++ rest).head?, c.isDigit = false := by
  rw [behind, List.append_assoc]
  match n.fraction with
  | d :: ds =>
      intro c hc
      obtain rfl : '.' = c := Option.some.inj hc
      rfl
  | [] => exact h.not_isDigit

/-- Where no fraction is written, none is read. -/
theorem Ends.fraction?_eq_none (hnil : n.fraction = []) :
    fraction? (n.exponent?.elim [] Exponent.text ++ rest) = none := by
  refine Option.eq_none_iff_forall_not_mem.mpr fun (ds, r) hr => ?_
  obtain ⟨d, s, hd, hs⟩ := exists_of_fraction? hr
  match he : n.exponent? with
  | some e =>
      rw [he] at hs
      have hmark : e.mark = '.' := (List.cons.inj hs).1
      rcases e.isMark with hm | hm
      · exact absurd (hmark.symm.trans hm) (by decide)
      · exact absurd (hmark.symm.trans hm) (by decide)
  | none =>
      rw [he] at hs
      exact h.fraction ⟨hnil, he⟩ d s hd hs

/-- The rest of a number behind its whole part is read as it was written. -/
theorem Ends.numberFrom_eq :
    numberFrom n.negative n.whole (n.behind ++ rest) = n.literal?.map (·, rest) := by
  rw [behind, List.append_assoc]
  by_cases hnil : n.fraction = []
  · have hfraction := h.fraction?_eq_none hnil
    rw [hnil, fractionText, List.nil_append, numberFrom, hfraction]
    simp only [h.exponent?_eq]
    match he : n.exponent? with
    | some e =>
        have hne : ¬ n.IsInteger := fun hint => Option.some_ne_none e (he.symm.trans hint.2)
        rw [literal?, if_neg hne, float, hnil, he]
        rfl
    | none =>
        rw [literal?, if_pos ⟨hnil, he⟩, Option.map_map]
        rfl
  · rw [literal?, if_neg (fun hint => hnil hint.1), numberFrom,
      fraction?_append hnil n.isDigit_fraction h.not_isDigit]
    simp only [h.exponent?_eq, float]
    cases n.exponent? <;> rfl

/-- A number is taken as it was written, or nothing is. -/
theorem Ends.literal?_eq : Read.literal? (n.text ++ rest) = n.literal?.map (·, rest) := by
  have htext : n.text ++ rest = numeral n.negative n.whole (n.behind ++ rest) := by
    simp only [text, numeral, List.append_assoc]
  rw [htext, literal?_eq_number? n.whole_ne_nil n.isDigit_whole,
    number?_numeral n.whole_ne_nil n.isDigit_whole h.not_isDigit_behind, h.numberFrom_eq]

end Ends

/-- A number ends before padding, a mark, a parenthesis, and at the end of the text. -/
theorem ends_of_apart {x : List Char} (hx : Apart x) : n.Ends x where
  digit := hx.isDigit_eq_false
  fraction _ d s _ := hx.ne_point (d :: s)
  exponent _ e s := by
    rw [Exponent.text, List.cons_append]
    rcases e.isMark with h | h
    · exact h ▸ hx.ne_cons (by decide) _
    · exact h ▸ hx.ne_cons (by decide) _

end Numeral

/-- A closing parenthesis keeps apart. -/
theorem apart_cons_closing (s : List Char) : Apart (')' :: s) := by
  intro d hd
  obtain rfl : ')' = d := Option.some.inj hd
  decide

/-- What stands behind the last item of a list is no part of it. -/
theorem ClosedPadding.apart_closing {p : List Char} (hp : ClosedPadding p) (s : List Char) :
    Apart (p ++ ')' :: s) := by
  cases hp with
  | nil => exact apart_cons_closing s
  | blank hc _ => exact apart_cons_blank hc _
  | comment _ _ => exact apart_cons_semicolon _

/-- A token that no parenthesis starts is a literal. -/
theorem Token.next?_of_ne {c : Char} (hclosing : c ≠ ')') (hopening : c ≠ '(') (s : List Char) :
    next? (c :: s) = (Read.literal? (c :: s)).map (Prod.map literal id) := by
  have hnone : opening? (c :: s) = none := by
    rw [opening?]
    rintro r hr
    exact hopening (List.cons.inj hr).1
  rw [next?]
  · rw [hnone]
    cases Read.literal? (c :: s) <;> rfl
  · rintro r hr
    exact hclosing (List.cons.inj hr).1

/-- A number starts with a minus or a digit. -/
theorem Numeral.text_eq_cons (n : Numeral) :
    ∃ c s, n.text = c :: s ∧ (c = '-' ∨ c.isDigit = true) := by
  obtain ⟨negative, whole, fraction, e?, hne, hwhole, hfraction⟩ := n
  cases negative with
  | true => exact ⟨'-', _, rfl, Or.inl rfl⟩
  | false =>
      cases whole with
      | nil => exact absurd rfl hne
      | cons d ds => exact ⟨d, _, rfl, Or.inr (hwhole d List.mem_cons_self)⟩

/-- A number is one token, or the text has no tokens. -/
theorem Numeral.Ends.list?_eq {n : Numeral} {rest : List Char} (h : n.Ends rest) :
    Token.list? (n.text ++ rest)
      = n.literal?.bind fun l => (Token.list? rest).map (.literal l :: ·) := by
  obtain ⟨c, s, htext, hc⟩ := n.text_eq_cons
  have hne {d : Char} (hminus : '-' ≠ d) (hd : d.isDigit = false) : c ≠ d := by
    rcases hc with rfl | hc
    · exact hminus
    · exact ne_of_isDigit hc hd
  have hblank : Text.isBlank c = false := by
    rcases hc with rfl | hc
    · rfl
    · have hrange := toNat_of_continuesWord (continuesWord_of_isDigit hc)
      exact isBlank_eq_false (by omega) (by omega)
  have hdrop : dropPadding (c :: (s ++ rest)) = c :: (s ++ rest) :=
    Token.dropPadding_of_visible hblank (hne (by decide) (by decide)) _
  have hread := h.literal?_eq
  rw [htext, List.cons_append] at hread ⊢
  rw [Token.list?_of_cons hdrop,
    Token.next?_of_ne (hne (by decide) (by decide)) (hne (by decide) (by decide)), hread]
  cases n.literal? <;> rfl

end Read

namespace Tree

open Read (Apart ClosedPadding Exponent Numeral Token)

/-! ## Numbers deep in texts -/

/-- A text and the tree that it is read as. -/
structure Readable where
  text : String
  tree : Tree
  isRead : parse? text = some tree

/-- A place for an item of a text: the whole of it, or a place in an item of a list, between other
items that can be read. -/
inductive Context where
  | here
  | list (pad head : String) (before : List Readable) (inner : Context) (after : List Readable)
      (gap : String) (isPadding : ClosedPadding pad.toList) (isWord : Text.isWord head.toList = true)
      (isGap : ClosedPadding gap.toList)

namespace Context

/-- The text with an item at the place.  Newlines separate the head and all items of a list. -/
def fill (s : String) : Context → String
  | here => s
  | list pad head before inner after gap _ _ _ =>
    "(" ++ pad ++ head ++ "\n" ++ String.join (before.map (·.text ++ "\n")) ++ inner.fill s
      ++ String.join (after.map ("\n" ++ ·.text)) ++ gap ++ ")"

/-- The tree with another one at the place, if no shape is refused. -/
def plug (t : Tree) : Context → Option Tree
  | here => some t
  | list _ head before inner after _ _ _ _ => do
    let item ← inner.plug t
    (make (.ofName head) (before.map (·.tree) ++ item :: after.map (·.tree))).toOption

/-- Every list ends on a line of its own. -/
def Lined : Context → Prop
  | here => True
  | list _ _ _ inner _ gap _ _ _ => gap = "\n" ∧ inner.Lined

/-- A list around a context starts with its head, and goes on with what is before the inner one. -/
theorem toList_fill_list {pad head gap : String} {before after : List Readable} {inner : Context}
    {hpad : ClosedPadding pad.toList} {hhead : Text.isWord head.toList = true}
    {hgap : ClosedPadding gap.toList} (s : String) (x : List Char) :
    ((list pad head before inner after gap hpad hhead hgap).fill s).toList ++ x
      = '(' :: (pad.toList ++ (head.toList ++ '\n' ::
        (((before.map fun p => (p.text, p.tree)).map Prod.fst).flatMap
            (fun s => s.toList ++ ['\n'])
          ++ ((inner.fill s).toList
            ++ (after.flatMap (fun p => '\n' :: p.text.toList) ++ (gap.toList ++ ')' :: x)))))) := by
  simp [fill, String.toList_join, List.flatMap_map]

/-- If nothing can be read that starts with a text, then nothing that starts with a longer text
around it. -/
theorem list?_fill_eq_none (c : Context) {s : String}
    (h : ∀ x, Apart x → Token.list? (s.toList ++ x) = none) :
    ∀ x, Apart x → Token.list? ((c.fill s).toList ++ x) = none := by
  induction c with
  | here => exact h
  | list pad head before inner after gap hpad hhead hgap ih =>
      intro x hx
      have hbehind : Apart (after.flatMap (fun p => '\n' :: p.text.toList)
          ++ (gap.toList ++ ')' :: x)) := by
        cases after with
        | nil => exact hgap.apart_closing x
        | cons p after => exact Read.apart_cons_blank (c := '\n') (by decide) _
      have hbefore : ∀ p ∈ before.map fun p => (p.text, p.tree), parse? p.1 = some p.2 := by
        intro p hp
        obtain ⟨q, -, rfl⟩ := List.mem_map.mp hp
        exact q.isRead
      -- the items in front are read, and at the place reading ends
      rw [toList_fill_list, list?_head hpad hhead, list?_items hbefore, ih _ hbehind]
      rfl

/-- Newlines between items and at the end are newlines behind the items. -/
theorem newlines_between (items : List Readable) (s : List Char) :
    items.flatMap (fun p => '\n' :: p.text.toList) ++ '\n' :: s
      = '\n' :: (items.flatMap (fun p => p.text.toList ++ ['\n']) ++ s) := by
  induction items with
  | nil => rfl
  | cons p items ih =>
      simp only [List.flatMap_cons, List.append_assoc, List.cons_append, List.nil_append, ih]

/-- In lists that end on lines of their own, a text is read where it stands. -/
theorem parse?_fill (c : Context) (hc : c.Lined) {s : String} {t u : Tree}
    (h : parse? s = some t) (hu : c.plug t = some u) : parse? (c.fill s) = some u := by
  induction c generalizing u with
  | here =>
      cases hu
      exact h
  | list pad head before inner after gap hpad hhead hgap ih =>
      obtain ⟨rfl, hinner⟩ := hc
      obtain ⟨item, hitem, hmake⟩ := Option.bind_eq_some_iff.mp hu
      have hread := ih hinner hitem
      have hitems : ∀ p ∈ (before.map fun p => (p.text, p.tree))
          ++ (inner.fill s, item) :: after.map fun p => (p.text, p.tree), parse? p.1 = some p.2 := by
        intro p hp
        simp only [List.mem_append, List.mem_cons, List.mem_map] at hp
        rcases hp with ⟨q, -, rfl⟩ | rfl | ⟨q, -, rfl⟩
        · exact q.isRead
        · exact hread
        · exact q.isRead
      have htext : (list pad head before inner after "\n" hpad hhead hgap).fill s
          = listText pad head (((before.map fun p => (p.text, p.tree))
            ++ (inner.fill s, item) :: after.map fun p => (p.text, p.tree)).map Prod.fst) := by
        have hfill := @toList_fill_list pad head _ before after inner hpad hhead hgap s []
        rw [List.append_nil] at hfill
        refine String.toList_inj.mp (hfill.trans ?_)
        rw [toList_listText]
        simp [newlines_between after, List.flatMap_map]
      rw [htext, parse?_listText hpad hhead hitems, List.map_append, List.map_cons, List.map_map,
        List.map_map]
      exact hmake

end Context

/-- A number alone is read as its literal, if there is one. -/
theorem parse?_numeral (n : Numeral) :
    parse? (String.ofList n.text) = n.literal?.map leaf := by
  have hlist := (n.ends_of_apart Read.apart_nil).list?_eq
  have hend : Token.list? [] = some [] := Token.list?_of_nil rfl
  rw [List.append_nil, hend] at hlist
  rw [parse?, ofChars?, String.toList_ofList, hlist]
  cases n.literal? <;> rfl

/-- An integer is read as itself if 64 bits hold it.  Otherwise no text is read that has it in the
place of an item, however deep.  A number with a fraction or an exponent is always read as a double.
In texts, too, a number is read as it is alone; and wherever it ends, it is one token or the text
has no tokens. -/
theorem numbers_are_exact (n : Numeral) :
    (n.IsInteger → Number.Fits n.integer →
        ∃ k : Int64, k.toInt = n.integer ∧ parse? (String.ofList n.text) = some (leaf (.int k)))
      ∧ (n.IsInteger → ¬ Number.Fits n.integer →
        ∀ c : Context, parse? (c.fill (String.ofList n.text)) = none)
      ∧ (¬ n.IsInteger → parse? (String.ofList n.text) = some (leaf (.float n.float)))
      ∧ (∀ (c : Context) (l : Literal) (t : Tree), c.Lined → n.literal? = some l →
        c.plug (leaf l) = some t → parse? (c.fill (String.ofList n.text)) = some t)
      ∧ ∀ rest, n.Ends rest → Token.list? (n.text ++ rest)
        = n.literal?.bind fun l => (Token.list? rest).map (.literal l :: ·) := by
  refine ⟨?_, ?_, ?_, ?_, ?_⟩
  · intro hint hfits
    refine ⟨Int64.ofInt n.integer, Number.toInt_ofInt hfits, ?_⟩
    rw [parse?_numeral, Numeral.literal?, if_pos hint, Number.int64?_eq_some hfits]
    rfl
  · intro hint hfits c
    have hnone : n.literal? = none := by
      rw [Numeral.literal?, if_pos hint, Number.int64?_eq_none hfits]
      rfl
    have hlist := c.list?_fill_eq_none (s := String.ofList n.text) (fun x hx => by
      rw [String.toList_ofList, (n.ends_of_apart hx).list?_eq, hnone]
      rfl) [] Read.apart_nil
    rw [List.append_nil] at hlist
    rw [parse?, ofChars?, hlist]
    rfl
  · intro hint
    rw [parse?_numeral, Numeral.literal?, if_neg hint]
    rfl
  · intro c l t hc hl ht
    refine c.parse?_fill hc ?_ ht
    rw [parse?_numeral, hl]
    rfl
  · intro rest hrest
    exact hrest.list?_eq

/-- The least integer is read between two lists, and the next below it is not, not even without an
item behind it.  A large double is infinite, and a mark without digits is no exponent. -/
theorem numbers_are_exact_least :
    parse? "(f\n(g\n1;)\n-09223372036854775808\n)\n()\n)"
        = some (node (.user "f") [node (.user "g") [leaf (.int 1), leaf (.int (-0x8000000000000000))],
          leaf .unit])
      ∧ parse? "(f\n(g\n1;)\n-9223372036854775809)\n())" = none
      ∧ parse? "-1e999" = some (leaf (.float (-Number.infinity)))
      ∧ Token.list? "1e".toList = some [.literal (.int 1), .literal (.sym "e")] := by
  let one : Readable := ⟨"1;)", leaf (.int 1), by cbv⟩
  let unit : Readable := ⟨"()", leaf .unit, by cbv⟩
  let place (gap : String) (hgap : ClosedPadding gap.toList) : Context :=
    .list "" "f" [] (.list "" "g" [one] .here [] gap .nil rfl hgap) [unit] gap .nil rfl hgap
  let integer (negative : Bool) (whole : List Char) (hne : whole ≠ [])
      (hwhole : whole.all Char.isDigit = true) : Numeral :=
    ⟨negative, whole, [], none, hne, List.all_eq_true.mp hwhole, List.forall_mem_nil _⟩
  let large : Exponent :=
    ⟨'e', [], ['9', '9', '9'], Or.inl rfl, Or.inl rfl, by decide, List.all_eq_true.mp rfl⟩
  have hnewline : ClosedPadding ['\n'] := .blank rfl .nil
  refine ⟨?_, ?_, ?_, ?_⟩
  · have hread := (numbers_are_exact (integer true "09223372036854775808".toList (by decide)
      (by cbv))).2.2.2.1 (place "\n" hnewline) (.int (-0x8000000000000000)) _ ⟨rfl, rfl, trivial⟩
      (by cbv) rfl
    refine Eq.trans (congrArg parse? ?_) hread
    cbv
  · have hread := (numbers_are_exact (integer true "9223372036854775809".toList (by decide)
      (by cbv))).2.1 ⟨rfl, rfl⟩ (by decide) (place "" .nil)
    refine Eq.trans (congrArg parse? ?_) hread
    cbv
  · have hread := (numbers_are_exact ⟨true, ['1'], [], some large, by decide,
      List.all_eq_true.mp rfl, List.forall_mem_nil _⟩).2.2.1 (fun h => Option.some_ne_none _ h.2)
    have hfloat : Read.floatOf true ['1'] [] (Read.signed false ['9', '9', '9'])
        = -Number.infinity := rfl
    exact hread.trans (congrArg (fun x => some (leaf (.float x))) hfloat)
  · have hends : (integer false ['1'] (by decide) rfl).Ends ['e'] := by
      refine ⟨?_, ?_, ?_⟩
      · rintro c hc
        obtain rfl : 'e' = c := Option.some.inj hc
        rfl
      · rintro - d s - h
        cases h
      · rintro - ⟨mark, sign, digits, _, _, hne, _⟩ s h
        have hdigits : sign ++ digits ++ s = [] := (List.cons.inj h).2.symm
        exact hne (List.append_eq_nil_iff.mp (List.append_eq_nil_iff.mp hdigits).1).2
    have hread := (numbers_are_exact (integer false ['1'] (by decide) rfl)).2.2.2.2 ['e'] hends
    refine hread.trans ?_
    cbv

end Tree

end TreeGrammar
