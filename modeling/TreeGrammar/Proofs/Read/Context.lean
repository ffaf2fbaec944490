import TreeGrammar.Proofs.Read.Literal

/-! # Reading with more text behind

    A token ends where it ends, whatever stands behind it, unless the next character
    could have become part of it.  `Apart` says that a text starts with no such
    character.  Then every reader takes the same in front of it (`followed`), and the
    tokens of a text are the first tokens of the longer one.  Only padding can be cut
    in two: a comment may still be open where the text ends. -/

namespace TreeGrammar.Read

open Text (isBlank startsWord continuesWord unescape unquote)

/-- The text is empty or starts with a character that no word and no number goes on with. -/
def Apart (x : List Char) : Prop :=
  ∀ c ∈ x.head?, continuesWord c = false ∧ c ≠ '.' ∧ c ≠ '-' ∧ c ≠ '+'

/-- What is taken, and more text behind the rest. -/
def followed {α : Type} (x : List Char) (taken? : Option (α × List Char)) :
    Option (α × List Char) :=
  taken?.map (Prod.map id (· ++ x))

@[simp] theorem followed_none {α : Type} (x : List Char) :
    followed x (none : Option (α × List Char)) = none := rfl

@[simp] theorem followed_some {α : Type} (x : List Char) (a : α) (s : List Char) :
    followed x (some (a, s)) = some (a, s ++ x) := rfl

/-- What follows is not touched by what is made of a result. -/
theorem followed_map {α β : Type} (x : List Char) (f : α → β) (o : Option (α × List Char)) :
    followed x (o.map (Prod.map f id)) = (followed x o).map (Prod.map f id) := by
  cases o <;> rfl

/-- What follows is the same for both readers. -/
theorem followed_or {α : Type} (x : List Char) (o o' : Option (α × List Char)) :
    followed x (o.or o') = (followed x o).or (followed x o') := by
  cases o <;> rfl

namespace Apart

variable {x : List Char}

/-- No word goes on behind what is read. -/
theorem continuesWord_eq_false (hx : Apart x) : ∀ c ∈ x.head?, continuesWord c = false := by
  intro c hc
  exact (hx c hc).1

/-- No number goes on behind what is read. -/
theorem isDigit_eq_false (hx : Apart x) : ∀ c ∈ x.head?, c.isDigit = false := by
  intro c hc
  cases hd : c.isDigit with
  | false => rfl
  | true =>
      have hw := (hx c hc).1
      rw [continuesWord_of_isDigit hd] at hw
      cases hw

/-- The text does not start with a letter or any other character that words go on with. -/
theorem ne_cons (hx : Apart x) {c : Char} (hc : continuesWord c = true) (s : List Char) :
    x ≠ c :: s := by
  rintro rfl
  have hw := (hx c rfl).1
  rw [hc] at hw
  cases hw

/-- No fraction starts behind what is read. -/
theorem ne_point (hx : Apart x) (s : List Char) : x ≠ '.' :: s := by
  rintro rfl
  exact (hx '.' rfl).2.1 rfl

theorem ne_minus (hx : Apart x) (s : List Char) : x ≠ '-' :: s := by
  rintro rfl
  exact (hx '-' rfl).2.2.1 rfl

theorem ne_plus (hx : Apart x) (s : List Char) : x ≠ '+' :: s := by
  rintro rfl
  exact (hx '+' rfl).2.2.2 rfl

end Apart

/-- The end of the text keeps apart. -/
theorem apart_nil : Apart [] := by
  intro c hc
  cases hc

/-- So does a blank. -/
theorem apart_cons_blank {c : Char} (h : isBlank c = true) (s : List Char) : Apart (c :: s) := by
  intro d hd
  obtain rfl : c = d := Option.some.inj hd
  have hne {d : Char} (hb : isBlank d = false) : c ≠ d := by
    rintro rfl
    rw [hb] at h
    cases h
  exact ⟨(stops_cons_blank h s).not_continuesWord c rfl, hne (by decide), hne (by decide),
    hne (by decide)⟩

/-- So does a comment. -/
theorem apart_cons_semicolon (s : List Char) : Apart (';' :: s) := by
  intro d hd
  obtain rfl : ';' = d := Option.some.inj hd
  decide

/-! ## Numbers and words -/

section Readers

variable {x : List Char} (hx : Apart x) (s : List Char)

/-- The longest start that passes a test is the same in front of a character that fails it. -/
theorem takeWhile_append_of_head {p : Char → Bool} (hp : ∀ c ∈ x.head?, p c = false) :
    (s ++ x).takeWhile p = s.takeWhile p ∧ (s ++ x).dropWhile p = s.dropWhile p ++ x := by
  induction s with
  | nil =>
      exact takeWhile_dropWhile_append (w := []) (fun c hc => nomatch hc) hp
  | cons c s ih =>
      cases hc : p c with
      | true =>
          simp only [List.cons_append, List.takeWhile_cons_of_pos hc,
            List.dropWhile_cons_of_pos hc, ih, and_self]
      | false =>
          have hc' : ¬ p c = true := by rw [hc]; exact Bool.false_ne_true
          simp only [List.cons_append, List.takeWhile_cons_of_neg hc',
            List.dropWhile_cons_of_neg hc', and_self]

include hx

/-- Digits are read the same in front of such text. -/
theorem digits?_followed : digits? (s ++ x) = followed x (digits? s) := by
  obtain ⟨htake, hdrop⟩ := takeWhile_append_of_head s hx.isDigit_eq_false
  rw [digits?, digits?, htake, hdrop]
  split <;> rfl

/-- A fraction is read the same in front of such text. -/
theorem fraction?_followed : fraction? (s ++ x) = followed x (fraction? s) := by
  match s with
  | [] =>
      show fraction? x = none
      rw [fraction?]
      exact fun r hr => hx.ne_point r hr
  | c :: s =>
      by_cases hc : c = '.'
      · subst hc
        exact digits?_followed hx s
      · have hnone (r : List Char) : fraction? (c :: r) = none := by
          rw [fraction?]
          rintro r' hr
          exact hc (List.cons.inj hr).1
        rw [List.cons_append, hnone, hnone]
        rfl

/-- A sign is read the same in front of such text. -/
theorem sign_followed : sign (s ++ x) = ((sign s).1, (sign s).2 ++ x) := by
  match s with
  | [] =>
      show sign x = (false, x)
      rw [sign]
      · exact fun r hr => hx.ne_minus r hr
      · exact fun r hr => hx.ne_plus r hr
  | c :: s =>
      by_cases hm : c = '-'
      · subst hm
        rfl
      by_cases hp : c = '+'
      · subst hp
        rfl
      have hnone (r : List Char) : sign (c :: r) = (false, c :: r) := by
        rw [sign]
        · rintro r' hr
          exact hm (List.cons.inj hr).1
        · rintro r' hr
          exact hp (List.cons.inj hr).1
      rw [List.cons_append, hnone, hnone]
      rfl

/-- An exponent is read the same in front of such text. -/
theorem exponent?_followed : exponent? (s ++ x) = followed x (exponent? s) := by
  match s with
  | [] =>
      show exponent? x = none
      match x, hx with
      | [], _ => rfl
      | c :: r, hx =>
          rw [exponent?, if_neg]
          rintro (rfl | rfl)
          · exact hx.ne_cons (by decide) r rfl
          · exact hx.ne_cons (by decide) r rfl
  | c :: s =>
      rw [List.cons_append, exponent?, exponent?]
      split
      · rw [sign_followed hx, digits?_followed hx]
        cases digits? (sign s).2 <;> rfl
      · rfl

/-- What follows the digits in front is read the same as well. -/
theorem numberFrom_followed (negative : Bool) (whole : List Char) :
    numberFrom negative whole (s ++ x) = followed x (numberFrom negative whole s) := by
  rw [numberFrom, numberFrom, fraction?_followed hx]
  cases fraction? s with
  | some found =>
      obtain ⟨fraction, rest⟩ := found
      simp only [followed_some, exponent?_followed hx]
      cases exponent? rest with
      | some found => rfl
      | none => rfl
  | none =>
      simp only [followed_none, exponent?_followed hx]
      cases exponent? s with
      | some found => rfl
      | none => cases Number.int64? (signed negative whole) <;> rfl

/-- A number is read the same in front of such text. -/
theorem number?_followed : number? (s ++ x) = followed x (number? s) := by
  have hfrom (negative : Bool) (r : List Char) :
      (digits? (r ++ x)).bind (fun p => numberFrom negative p.1 p.2)
        = followed x ((digits? r).bind fun p => numberFrom negative p.1 p.2) := by
    rw [digits?_followed hx]
    cases digits? r with
    | none => rfl
    | some found => exact numberFrom_followed hx found.2 negative found.1
  cases s with
  | nil =>
      have hnone : digits? ([] ++ x) = none := digits?_followed hx []
      rw [number?, hnone]
      · rfl
      · exact fun r hr => hx.ne_minus r hr
  | cons c s =>
      by_cases hm : c = '-'
      · subst hm
        exact hfrom true s
      · have hplain (r : List Char) : number? (c :: r)
            = (digits? (c :: r)).bind fun p => numberFrom false p.1 p.2 := by
          rw [number?]
          rintro r' hr
          exact hm (List.cons.inj hr).1
        rw [List.cons_append, hplain, hplain]
        exact hfrom false (c :: s)

/-- So is the negative infinity. -/
theorem negativeInfinity?_followed :
    negativeInfinity? (s ++ x) = followed x (negativeInfinity? s) := by
  have hnone {t : List Char} (ht : ∀ r, t ≠ ['-', 'i', 'n', 'f'] ++ r) :
      negativeInfinity? t = none := by
    rw [negativeInfinity?]
    exact ht
  by_cases hs : ∃ r, s = ['-', 'i', 'n', 'f'] ++ r
  · obtain ⟨r, rfl⟩ := hs
    rfl
  · rw [hnone (fun r hr => hs ⟨r, hr⟩), hnone]
    · rfl
    · intro r hr
      -- the word would be cut in two, and no part of it stands at the start of `x`
      rcases List.append_eq_append_iff.mp hr with ⟨b, hb, hx'⟩ | ⟨b, hb, -⟩
      · cases b with
        | nil => exact hs ⟨[], by rw [hb, List.append_nil, List.append_nil]⟩
        | cons c b =>
            have hmem : c ∈ ['-', 'i', 'n', 'f'] := by simp [hb]
            have hc : c = '-' ∨ continuesWord c = true := by
              simp only [List.mem_cons, List.not_mem_nil, or_false] at hmem
              rcases hmem with rfl | rfl | rfl | rfl <;> decide
            rcases hc with rfl | hc
            · exact hx.ne_minus _ hx'
            · exact hx.ne_cons hc _ hx'
      · exact hs ⟨b, hb⟩

/-- A word is read the same in front of such text. -/
theorem word?_followed : Text.word? (s ++ x) = followed x (Text.word? s) := by
  match s with
  | [] =>
      match x, hx with
      | [], _ => rfl
      | c :: r, hx =>
          have hc : startsWord c = false := by
            rw [← Bool.not_eq_true]
            intro hc
            exact hx.ne_cons (continuesWord_of_startsWord hc) r rfl
          show Text.word? (c :: r) = none
          rw [Text.word?, hc, if_neg Bool.false_ne_true]
  | c :: s =>
      obtain ⟨htake, hdrop⟩ := takeWhile_append_of_head s hx.continuesWord_eq_false
      rw [List.cons_append, Text.word?, Text.word?, htake, hdrop]
      split <;> rfl

end Readers

/-! ## Quoted texts, padding and literals -/

/-- A quoted text ends with its mark, whatever follows. -/
theorem unescape_followed {mark : Char} (hmark : mark ≠ '\\') {s cs rest : List Char}
    (h : unescape mark s = some (cs, rest)) (x : List Char) :
    unescape mark (s ++ x) = some (cs, rest ++ x) := by
  fun_induction unescape mark s generalizing cs with
  | case1 => cases h
  | case2 c r hc ih =>
      obtain ⟨⟨ds, r'⟩, hr, he⟩ := Option.map_eq_some_iff.1 h
      obtain ⟨rfl, rfl⟩ := Prod.mk.inj he
      rw [List.cons_append, List.cons_append, unescape, if_pos hc, ih hr]
      rfl
  | case3 => cases h
  | case4 r =>
      cases h
      rw [List.cons_append, unescape, if_pos rfl]
      exact fun c r hc => absurd hc hmark
  | case5 => cases h
  | case6 c r _ hm hb ih =>
      obtain ⟨⟨ds, r'⟩, hr, he⟩ := Option.map_eq_some_iff.1 h
      obtain ⟨rfl, rfl⟩ := Prod.mk.inj he
      rw [List.cons_append, unescape, if_neg hm, if_neg hb, ih hr]
      · rfl
      · exact fun c r hc => absurd hc hb

/-- A quotation that is closed is read the same in front of any text. -/
theorem unquote_followed {mark : Char} (hmark : mark ≠ '\\') {s cs rest : List Char}
    (h : unquote mark s = some (cs, rest)) (x : List Char) :
    unquote mark (s ++ x) = some (cs, rest ++ x) := by
  match s, h with
  | c :: r, h =>
      by_cases hc : c = mark
      · rw [unquote, if_pos hc] at h
        rw [List.cons_append, unquote, if_pos hc, unescape_followed hmark h]
      · rw [unquote, if_neg hc] at h
        cases h

/-- A string is closed, and read the same in front of any text. -/
theorem string?_followed {s rest : List Char} {l : Literal} (h : string? s = some (l, rest))
    (x : List Char) : string? (s ++ x) = some (l, rest ++ x) := by
  obtain ⟨⟨cs, r⟩, hr, he⟩ := Option.map_eq_some_iff.1 h
  obtain ⟨rfl, rfl⟩ := Prod.mk.inj he
  rw [string?, unquote_followed (by decide) hr]
  rfl

/-- A symbol between bars is closed, and read the same in front of any text. -/
theorem barredSymbol?_followed {s rest : List Char} {l : Literal}
    (h : barredSymbol? s = some (l, rest)) (x : List Char) :
    barredSymbol? (s ++ x) = some (l, rest ++ x) := by
  obtain ⟨⟨cs, r⟩, hr, he⟩ := Option.map_eq_some_iff.1 h
  obtain ⟨rfl, rfl⟩ := Prod.mk.inj he
  rw [barredSymbol?, unquote_followed (by decide) hr]
  rfl

/-- If something stands behind the padding, more text follows it. -/
theorem dropPaddingFrom_append_of_cons {inComment : Bool} {s r : List Char} {c : Char}
    (h : dropPaddingFrom inComment s = c :: r) (x : List Char) :
    dropPaddingFrom inComment (s ++ x) = c :: r ++ x := by
  fun_induction dropPaddingFrom inComment s with
  | case1 => cases h
  | case2 d s ih => exact ih h
  | case3 inComment d s hin hd ih =>
      rw [List.cons_append, dropPaddingFrom, if_neg hin, if_pos hd]
      exact ih h
  | case4 inComment s hin hb ih =>
      rw [List.cons_append, dropPaddingFrom, if_neg hin, if_neg hb, if_pos rfl]
      exact ih h
  | case5 inComment d s hin hb hd =>
      cases h
      rw [List.cons_append, dropPaddingFrom, if_neg hin, if_neg hb, if_neg hd]

/-- If nothing stands behind the padding, more text goes on inside or outside of a comment. -/
theorem dropPaddingFrom_append_of_nil {inComment : Bool} {s : List Char}
    (h : dropPaddingFrom inComment s = []) (x : List Char) :
    ∃ inComment', dropPaddingFrom inComment (s ++ x) = dropPaddingFrom inComment' x := by
  fun_induction dropPaddingFrom inComment s with
  | case1 inComment => exact ⟨inComment, rfl⟩
  | case2 d s ih => exact ih h
  | case3 inComment d s hin hd ih =>
      rw [List.cons_append, dropPaddingFrom, if_neg hin, if_pos hd]
      exact ih h
  | case4 inComment s hin hb ih =>
      rw [List.cons_append, dropPaddingFrom, if_neg hin, if_neg hb, if_pos rfl]
      exact ih h
  | case5 => cases h

/-- The unit is closed, and read the same in front of any text. -/
theorem unit?_followed {s rest : List Char} {l : Literal} (h : unit? s = some (l, rest))
    (x : List Char) : unit? (s ++ x) = some (l, rest ++ x) := by
  unfold unit? at h
  split at h
  · next r =>
      split at h
      · next hr =>
          cases h
          have hpadding : dropPadding (r ++ x) = ')' :: (rest ++ x) :=
            dropPaddingFrom_append_of_cons hr x
          rw [List.cons_append, unit?, hpadding]
          rfl
      · cases h
  · cases h

/-- Only strings start with a quotation mark. -/
theorem literal?_quote (s : List Char) : literal? ('"' :: s) = string? ('"' :: s) := by
  rw [literal?_eq_or, negativeInfinity?_eq_none s (by decide),
    number?_eq_none s (by decide) rfl, word?_eq_none s rfl,
    barredSymbol?_eq_none s (by decide), unit?_eq_none s (by decide)]
  cases string? ('"' :: s) <;> rfl

/-- Only symbols start with a bar. -/
theorem literal?_bar (s : List Char) : literal? ('|' :: s) = barredSymbol? ('|' :: s) := by
  rw [literal?_eq_or, negativeInfinity?_eq_none s (by decide),
    number?_eq_none s (by decide) rfl, string?_eq_none s (by decide), word?_eq_none s rfl,
    unit?_eq_none s (by decide)]
  cases barredSymbol? ('|' :: s) <;> rfl

/-- A literal that no mark and no parenthesis opens is a number or a word. -/
theorem literal?_unmarked {c : Char} (hquote : c ≠ '"') (hbar : c ≠ '|') (hparen : c ≠ '(')
    (s : List Char) :
    literal? (c :: s)
      = (negativeInfinity? (c :: s)).or ((number? (c :: s)).or (word? (c :: s))) := by
  rw [literal?_eq_or, string?_eq_none s hquote, barredSymbol?_eq_none s hbar,
    unit?_eq_none s hparen]
  cases word? (c :: s) <;> rfl

/-- A literal is read in front of more text as it is read alone. -/
theorem literal?_followed {x : List Char} (hx : Apart x) {s rest : List Char} {l : Literal}
    (h : literal? s = some (l, rest)) : literal? (s ++ x) = some (l, rest ++ x) := by
  match s, h with
  | [], h => cases h
  | c :: r, h =>
      by_cases hquote : c = '"'
      · subst hquote
        rw [literal?_quote] at h
        exact (literal?_quote _).trans (string?_followed h x)
      by_cases hbar : c = '|'
      · subst hbar
        rw [literal?_bar] at h
        exact (literal?_bar _).trans (barredSymbol?_followed h x)
      by_cases hparen : c = '('
      · subst hparen
        rw [literal?_parenthesis] at h
        exact (literal?_parenthesis _).trans (unit?_followed h x)
      rw [literal?_unmarked hquote hbar hparen] at h
      rw [List.cons_append, literal?_unmarked hquote hbar hparen, ← List.cons_append,
        negativeInfinity?_followed hx, number?_followed hx, word?, word?_followed hx,
        ← followed_map, ← word?, ← followed_or, ← followed_or, h, followed_some]

/-! ## Tokens -/

/-- Padding is dropped at once. -/
theorem dropPadding_dropPaddingFrom (inComment : Bool) (s : List Char) :
    dropPadding (dropPaddingFrom inComment s) = dropPaddingFrom inComment s := by
  fun_induction dropPaddingFrom inComment s with
  | case1 => rfl
  | case2 _ _ ih => exact ih
  | case3 _ _ _ _ _ ih => exact ih
  | case4 _ _ _ _ ih => exact ih
  | case5 inComment c s hin hb hc =>
      rw [dropPadding, dropPaddingFrom, if_neg Bool.false_ne_true, if_neg hb, if_neg hc]

namespace Token

/-- A literal at the start of a text is its first token. -/
theorem next?_of_literal {s rest : List Char} {l : Literal} (h : literal? s = some (l, rest)) :
    next? s = some (.literal l, rest) := by
  rw [next?]
  · simp only [h]
  · rintro r rfl
    rw [literal?_eq_none (Or.inr (Or.inr rfl))] at h
    cases h

/-- An opening parenthesis and the word behind its padding are the first token of a text. -/
theorem next?_of_word {r r' w rest : List Char} {c : Char} (hr : dropPadding r = c :: r')
    (hc : startsWord c = true) (hw : Text.word? (c :: r') = some (w, rest)) :
    next? ('(' :: r) = some (.opening (String.ofList w), rest) := by
  -- the unit literal is tried first, but the word is in its way
  have hliteral : literal? ('(' :: r) = none := by
    rw [literal?_parenthesis, unit?, hr]
    split
    · next hc' =>
        cases hc'
        cases hc
    · rfl
  rw [next?]
  · simp only [hliteral]
    rw [opening?, hr, hw]
    rfl
  · exact fun r' h => absurd (List.cons.inj h).1 (by decide)

/-- An opening token is a parenthesis and a word behind its padding. -/
theorem exists_of_opening? {s rest : List Char} {t : Token} (h : opening? s = some (t, rest)) :
    ∃ r c r' w, s = '(' :: r ∧ dropPadding r = c :: r' ∧ startsWord c = true
      ∧ Text.word? (c :: r') = some (w, rest) ∧ t = .opening (String.ofList w) := by
  unfold opening? at h
  split at h
  · next r =>
      obtain ⟨⟨w, r'⟩, hw, he⟩ := Option.map_eq_some_iff.1 h
      cases he
      match hr : dropPadding r with
      | [] =>
          rw [hr] at hw
          cases hw
      | c :: r' =>
          rw [hr] at hw
          have hc : startsWord c = true := by
            cases hc : startsWord c with
            | true => rfl
            | false =>
                rw [Text.word?, hc, if_neg Bool.false_ne_true] at hw
                cases hw
          exact ⟨r, c, r', w, rfl, hr, hc, hw, rfl⟩
  · cases h

/-- What the first token of a text can be. -/
theorem next?_cases {s rest : List Char} {t : Token} (h : next? s = some (t, rest)) :
    (s = ')' :: rest ∧ t = .closing) ∨ (∃ l, literal? s = some (l, rest) ∧ t = .literal l)
      ∨ opening? s = some (t, rest) := by
  unfold next? at h
  split at h
  · cases h
    exact Or.inl ⟨rfl, rfl⟩
  · split at h
    · next l r hl =>
        cases h
        exact Or.inr (Or.inl ⟨l, hl, rfl⟩)
    · exact Or.inr (Or.inr h)

/-- A token is read in front of more text as it is read alone. -/
theorem next?_followed {x : List Char} (hx : Apart x) {s rest : List Char} {t : Token}
    (h : next? s = some (t, rest)) : next? (s ++ x) = some (t, rest ++ x) := by
  rcases next?_cases h with ⟨rfl, rfl⟩ | ⟨l, hl, rfl⟩ | hopening
  · rfl
  · exact next?_of_literal (literal?_followed hx hl)
  · obtain ⟨r, c, r', w, rfl, hr, hc, hw, rfl⟩ := exists_of_opening? hopening
    have hpadding : dropPadding (r ++ x) = c :: (r' ++ x) := dropPaddingFrom_append_of_cons hr x
    have hword : Text.word? (c :: (r' ++ x)) = some (w, rest ++ x) := by
      rw [← List.cons_append, word?_followed hx, hw, followed_some]
    exact next?_of_word hpadding hc hword

/-- Padding has no tokens. -/
theorem list?_of_nil {s : List Char} (h : dropPadding s = []) : list? s = some [] := by
  rw [list?]
  split
  · rfl
  · next h' =>
      rw [h] at h'
      cases h'

/-- The tokens of a text are the first one behind the padding and those of the rest. -/
theorem list?_of_cons {s : List Char} {c : Char} {r : List Char} (h : dropPadding s = c :: r) :
    list? s = (next? (c :: r)).bind fun (t, rest) => (list? rest).map (t :: ·) := by
  rw [list?]
  split
  · next h' =>
      rw [h] at h'
      cases h'
  · next h' =>
      rw [h] at h'
      cases h'
      split
      · next ht => simp only [ht, Option.bind_some]
      · next ht => simp only [ht, Option.bind_none]

/-- Padding in front of a text adds no tokens. -/
theorem list?_eq_of_dropPadding {s s' : List Char} (h : dropPadding s = dropPadding s') :
    list? s = list? s' := by
  match hs : dropPadding s' with
  | [] => rw [list?_of_nil (h.trans hs), list?_of_nil hs]
  | c :: r => rw [list?_of_cons (h.trans hs), list?_of_cons hs]

/-- The tokens of a text are the first ones of a longer text.  They may end inside a comment, so the
rest must have the same tokens there, or none of both. -/
theorem list?_followed {s x : List Char} {ts : List Token} {us? : Option (List Token)}
    (hx : Apart x) (h : list? s = some ts)
    (hus : ∀ inComment, list? (dropPaddingFrom inComment x) = us?) :
    list? (s ++ x) = us?.map (ts ++ ·) := by
  match hs : dropPadding s with
  | [] =>
      rw [list?_of_nil hs] at h
      cases h
      obtain ⟨inComment, hrest⟩ := dropPaddingFrom_append_of_nil hs x
      rw [list?_eq_of_dropPadding (hrest.trans (dropPadding_dropPaddingFrom inComment x).symm),
        hus inComment]
      cases us? <;> rfl
  | c :: r =>
      rw [list?_of_cons hs] at h
      obtain ⟨⟨t, rest⟩, ht, hrest⟩ := Option.bind_eq_some_iff.1 h
      obtain ⟨ts', hts', rfl⟩ := Option.map_eq_some_iff.1 hrest
      have hlt : rest.length < s.length :=
        Nat.lt_of_lt_of_le (length_next?_lt ht) (hs ▸ length_dropPadding_le s)
      have hsx : dropPadding (s ++ x) = c :: (r ++ x) := dropPaddingFrom_append_of_cons hs x
      have hnext : next? (c :: (r ++ x)) = some (t, rest ++ x) := next?_followed hx ht
      rw [list?_of_cons hsx, hnext]
      show (list? (rest ++ x)).map _ = _
      rw [list?_followed hx hts' hus, Option.map_map]
      rfl
termination_by s.length

end Token

end TreeGrammar.Read
