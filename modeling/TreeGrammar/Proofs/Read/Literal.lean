import TreeGrammar.Read.Token

/-! # Reading a literal that something follows

    A literal is read from the start of a text, and what follows must not become part
    of it.  `Stops` says that a text starts with a blank or a closing parenthesis, or
    is empty: then every word, number and quoted text in front of it ends where it was
    written to end.  The lemmas here say so for each kind of token, and that no earlier
    alternative of `literal?` takes anything. -/

namespace TreeGrammar.Text

/-- Reading undoes escaping, and stops at the mark. -/
theorem unescape_escape {mark : Char} (hm : mark ≠ '\\') (cs rest : List Char) :
    unescape mark (escape mark cs ++ mark :: rest) = some (cs, rest) := by
  induction cs with
  | nil =>
      show unescape mark (mark :: rest) = some ([], rest)
      rw [unescape, if_pos rfl]
      intro c r h
      exact absurd h hm
  | cons c cs ih =>
      by_cases hc : c = mark ∨ c = '\\'
      · rw [escape, if_pos hc]
        show unescape mark ('\\' :: c :: (escape mark cs ++ mark :: rest)) = some (c :: cs, rest)
        rw [unescape, if_pos hc, ih]
        rfl
      · rw [escape, if_neg hc]
        rw [not_or] at hc
        show unescape mark (c :: (escape mark cs ++ mark :: rest)) = some (c :: cs, rest)
        rw [unescape, if_neg hc.1, if_neg hc.2, ih]
        · rfl
        · intro c' r h
          exact absurd h hc.2

/-- Reading undoes quoting. -/
theorem unquote_quote {mark : Char} (hm : mark ≠ '\\') (cs rest : List Char) :
    unquote mark (quote mark cs ++ rest) = some (cs, rest) := by
  rw [quote, List.cons_append, unquote, if_pos rfl, List.append_assoc]
  exact unescape_escape hm cs rest

/-- A text without the mark at its start is not quoted. -/
theorem unquote_of_ne {mark c : Char} (h : c ≠ mark) (s : List Char) :
    unquote mark (c :: s) = none := by
  rw [unquote, if_neg h]

end TreeGrammar.Text

namespace TreeGrammar.Read

open Text (isBlank isWord startsWord continuesWord unquote_quote unquote_of_ne)

/-- The text is empty or starts with a blank or a closing parenthesis. -/
def Stops (s : List Char) : Prop :=
  ∀ c ∈ s.head?, isBlank c = true ∨ c = ')'

/-- Everything stops at the end of the text. -/
theorem stops_nil : Stops [] := by
  intro c hc
  cases hc

/-- Everything that is read stops at a blank. -/
theorem stops_cons_blank {c : Char} (h : isBlank c = true) (s : List Char) : Stops (c :: s) := by
  intro d hd
  rw [List.head?_cons, Option.mem_some_iff] at hd
  exact Or.inl (hd ▸ h)

/-- Everything that is read stops at a closing parenthesis. -/
theorem stops_cons_closing (s : List Char) : Stops (')' :: s) := by
  intro d hd
  rw [List.head?_cons, Option.mem_some_iff] at hd
  exact Or.inr hd.symm

/-- Letters lie from `A` to `Z` and from `a` to `z`. -/
theorem isAlpha_iff_toNat {c : Char} :
    c.isAlpha = true ↔ (65 ≤ c.toNat ∧ c.toNat ≤ 90) ∨ (97 ≤ c.toNat ∧ c.toNat ≤ 122) := by
  show (decide (c.val ≥ 'A'.val ∧ c.val ≤ 'Z'.val)
    || (decide (c.val ≥ 'a'.val) && decide (c.val ≤ 'z'.val))) = true ↔ _
  rw [Bool.or_eq_true, Bool.and_eq_true, decide_eq_true_iff, decide_eq_true_iff,
    decide_eq_true_iff]
  exact Iff.rfl

/-- Where the characters lie that words are made of. -/
theorem toNat_of_continuesWord {c : Char} (h : continuesWord c = true) :
    (48 ≤ c.toNat ∧ c.toNat ≤ 57) ∨ (65 ≤ c.toNat ∧ c.toNat ≤ 90) ∨ c.toNat = 95
      ∨ (97 ≤ c.toNat ∧ c.toNat ≤ 122) := by
  change (c.isAlpha || c.isDigit || c == '_') = true at h
  rw [Bool.or_eq_true, Bool.or_eq_true, isAlpha_iff_toNat, Char.isDigit_iff_toNat,
    beq_iff_eq] at h
  rcases h with ((h | h) | h) | rfl
  · exact Or.inr (Or.inl h)
  · exact Or.inr (Or.inr (Or.inr h))
  · exact Or.inl h
  · exact Or.inr (Or.inr (Or.inl rfl))

/-- A digit goes on with a word. -/
theorem continuesWord_of_isDigit {c : Char} (h : c.isDigit = true) : continuesWord c = true := by
  rw [continuesWord, Char.isAlphanum, h, Bool.or_true, Bool.true_or]

theorem continuesWord_of_startsWord {c : Char} (h : startsWord c = true) :
    continuesWord c = true := by
  rw [startsWord, Bool.or_eq_true] at h
  rw [continuesWord, Char.isAlphanum, Bool.or_eq_true, Bool.or_eq_true]
  exact h.imp_left Or.inl

/-- No word starts with a digit. -/
theorem isDigit_of_startsWord {c : Char} (h : startsWord c = true) : c.isDigit = false := by
  rw [startsWord, Bool.or_eq_true, isAlpha_iff_toNat, beq_iff_eq] at h
  rw [← Bool.not_eq_true, Char.isDigit_iff_toNat]
  change ¬ (48 ≤ c.toNat ∧ c.toNat ≤ 57)
  rcases h with (h | h) | rfl
  · omega
  · omega
  · decide

/-- No visible ASCII character is blank. -/
theorem isBlank_eq_false {c : Char} (low : 0x21 ≤ c.toNat) (high : c.toNat ≤ 0x7e) :
    isBlank c = false := by
  simp only [isBlank, Bool.or_eq_false_iff, Bool.and_eq_false_iff, decide_eq_false_iff_not,
    beq_eq_false_iff_ne]
  omega

/-- Where the characters lie that text can stop at. -/
theorem Stops.toNat {c : Char} {s : List Char} (h : Stops (c :: s)) :
    c.toNat ≤ 0x20 ∨ c.toNat = 0x29 ∨ 0x7f ≤ c.toNat := by
  -- the blanks beyond ASCII need not be told apart
  rcases h c rfl with hb | rfl
  · refine Decidable.byContradiction fun hn => ?_
    rw [isBlank_eq_false (by omega) (by omega)] at hb
    cases hb
  · exact Or.inr (Or.inl rfl)

/-- A word does not go on where text stops. -/
theorem Stops.not_continuesWord {s : List Char} (h : Stops s) :
    ∀ c ∈ s.head?, continuesWord c = false := by
  intro c hc
  match s, h with
  | d :: s, h =>
      rw [List.head?_cons, Option.mem_some_iff] at hc
      subst hc
      cases hw : continuesWord d with
      | false => rfl
      | true =>
          have := toNat_of_continuesWord hw
          have := h.toNat
          omega

/-- A number does not go on where text stops. -/
theorem Stops.not_isDigit {s : List Char} (h : Stops s) : ∀ c ∈ s.head?, c.isDigit = false := by
  intro c hc
  cases hd : c.isDigit with
  | false => rfl
  | true =>
      have := h.not_continuesWord c hc
      rw [continuesWord_of_isDigit hd] at this
      cases this

/-- No fraction starts where text stops. -/
theorem Stops.fraction?_eq_none {s : List Char} (h : Stops s) : fraction? s = none := by
  match s, h with
  | [], _ => rfl
  | c :: s, h =>
      have hc : c ≠ '.' := by
        rintro rfl
        exact absurd h.toNat (by decide)
      rw [fraction?]
      intro r hr
      exact hc (List.cons.inj hr).1

/-- No exponent starts where text stops. -/
theorem Stops.exponent?_eq_none {s : List Char} (h : Stops s) : exponent? s = none := by
  match s, h with
  | [], _ => rfl
  | c :: s, h =>
      have hc : ¬ (c = 'e' ∨ c = 'E') := by
        rintro (rfl | rfl) <;> exact absurd h.toNat (by decide)
      rw [exponent?, if_neg hc]

/-- The characters up to the first that fails a test. -/
theorem takeWhile_dropWhile_append {p : Char → Bool} {w s : List Char} (hw : ∀ c ∈ w, p c = true)
    (hs : ∀ c ∈ s.head?, p c = false) :
    (w ++ s).takeWhile p = w ∧ (w ++ s).dropWhile p = s := by
  rw [List.takeWhile_append_of_pos hw, List.dropWhile_append_of_pos hw]
  match s with
  | [] => exact ⟨List.append_nil w, rfl⟩
  | c :: s =>
      have hc : ¬ p c = true := by rw [hs c rfl]; exact Bool.false_ne_true
      rw [List.takeWhile_cons_of_neg hc, List.dropWhile_cons_of_neg hc, List.append_nil]
      exact ⟨rfl, rfl⟩

/-! ## Words and numbers -/

/-- A word is read up to where it stops. -/
theorem word?_append {w s : List Char} (hw : isWord w = true) (hs : Stops s) :
    Text.word? (w ++ s) = some (w, s) := by
  match w, hw with
  | c :: w, hw =>
      rw [isWord, Bool.and_eq_true, List.all_eq_true] at hw
      obtain ⟨htake, hdrop⟩ := takeWhile_dropWhile_append hw.2 hs.not_continuesWord
      rw [List.cons_append, Text.word?, if_pos hw.1, htake, hdrop]

/-- Digits are read up to the first character that is none. -/
theorem digits?_append {ds s : List Char} (hne : ds ≠ []) (hds : ∀ c ∈ ds, c.isDigit = true)
    (hs : ∀ c ∈ s.head?, c.isDigit = false) : digits? (ds ++ s) = some (ds, s) := by
  obtain ⟨htake, hdrop⟩ := takeWhile_dropWhile_append hds hs
  rw [digits?, htake, hdrop, if_neg]
  rw [List.isEmpty_iff]
  exact hne

/-- The digits of a number are digits. -/
theorem isDigit_of_mem_digitsOf {n : Nat} {c : Char} (h : c ∈ Number.digitsOf n) :
    c.isDigit = true :=
  Nat.isDigit_of_mem_toDigits (by decide) (by decide) h

/-- Every number has digits. -/
theorem digitsOf_ne_nil (n : Nat) : Number.digitsOf n ≠ [] :=
  Nat.toDigits_ne_nil

/-- The text of a number starts with a digit. -/
theorem digitsOf_eq_cons (n : Nat) :
    ∃ c ds, Number.digitsOf n = c :: ds ∧ c.isDigit = true := by
  obtain ⟨c, ds, hn⟩ := List.exists_cons_of_ne_nil (digitsOf_ne_nil n)
  refine ⟨c, ds, hn, isDigit_of_mem_digitsOf (n := n) ?_⟩
  rw [hn]
  exact List.mem_cons_self

/-- The digits of a number have its value. -/
theorem ofDigits_digitsOf (n : Nat) : Number.ofDigits (Number.digitsOf n) = n :=
  Nat.ofDigitChars_ten_toDigits

/-- A digit is none of the other characters. -/
theorem ne_of_isDigit {c d : Char} (hc : c.isDigit = true) (hd : d.isDigit = false) : c ≠ d := by
  rintro rfl
  rw [hd] at hc
  cases hc

/-- A text that starts with a digit has no sign. -/
theorem number?_of_isDigit {c : Char} (h : c.isDigit = true) (s : List Char) :
    number? (c :: s)
      = (digits? (c :: s)).bind fun (whole, rest) => numberFrom false whole rest := by
  rw [number?]
  rintro r hr
  exact ne_of_isDigit h (by decide) (List.cons.inj hr).1

/-- The text of a number: its sign, whole part, fraction and exponent. -/
def numeral (negative : Bool) (whole behind : List Char) : List Char :=
  (if negative then ['-'] else []) ++ (whole ++ behind)

/-- A number is read from its whole part on, whatever its sign. -/
theorem number?_numeral {negative : Bool} {whole behind : List Char} (hne : whole ≠ [])
    (hwhole : ∀ c ∈ whole, c.isDigit = true) (hbehind : ∀ c ∈ behind.head?, c.isDigit = false) :
    number? (numeral negative whole behind) = numberFrom negative whole behind := by
  have hdigits := digits?_append hne hwhole hbehind
  match negative, whole, hne with
  | true, whole, _ =>
      show number? ('-' :: (whole ++ behind)) = _
      rw [number?, hdigits]
      rfl
  | false, c :: ds, _ =>
      show number? (c :: (ds ++ behind)) = _
      rw [number?_of_isDigit (hwhole c List.mem_cons_self)]
      show (digits? (c :: ds ++ behind)).bind _ = _
      rw [hdigits]
      rfl

/-- The text of an integer is its sign and the digits of its magnitude. -/
theorem intText_append (z : Int) (s : List Char) :
    Number.intText z ++ s = numeral (decide (z < 0)) (Number.digitsOf z.natAbs) s := by
  cases z with
  | ofNat k => rfl
  | negSucc k =>
      rw [decide_eq_true (Int.negSucc_lt_zero k)]
      rfl

/-- The digits of the magnitude, with the sign put back, are the integer. -/
theorem signed_digitsOf (z : Int) : signed (decide (z < 0)) (Number.digitsOf z.natAbs) = z := by
  cases z with
  | ofNat k =>
      show (Number.ofDigits (Number.digitsOf k) : Int) = _
      rw [ofDigits_digitsOf]
      rfl
  | negSucc k =>
      rw [decide_eq_true (Int.negSucc_lt_zero k)]
      show -(Number.ofDigits (Number.digitsOf (k + 1)) : Int) = _
      rw [ofDigits_digitsOf]
      rfl

/-- An integer in front of where text stops is read as it is. -/
theorem number?_intText (n : Int64) {s : List Char} (hs : Stops s) :
    number? (Number.intText n.toInt ++ s) = some (.int n, s) := by
  have hrange : -0x8000000000000000 ≤ n.toInt ∧ n.toInt < 0x8000000000000000 :=
    ⟨n.minValue_le_toInt, by have := n.toInt_lt; omega⟩
  rw [intText_append, number?_numeral (digitsOf_ne_nil _) (fun c => isDigit_of_mem_digitsOf)
    hs.not_isDigit, numberFrom, hs.fraction?_eq_none, hs.exponent?_eq_none, signed_digitsOf,
    Number.int64?, if_pos hrange, Int64.ofInt_toInt]
  rfl

/-- The text of a fraction; without digits there is no point either. -/
def fractionText : List Char → List Char
  | [] => []
  | d :: ds => '.' :: d :: ds

/-- The text of an exponent, if there is one. -/
def exponentText : Option Int → List Char
  | none => []
  | some e => 'e' :: Number.intText e

/-- A fraction is read as it is written. -/
theorem fraction?_append {ds s : List Char} (hne : ds ≠ []) (hds : ∀ c ∈ ds, c.isDigit = true)
    (hs : ∀ c ∈ s.head?, c.isDigit = false) : fraction? (fractionText ds ++ s) = some (ds, s) := by
  match ds, hne with
  | d :: ds, hne => exact digits?_append hne hds hs

/-- No digit stands behind the whole part of a number. -/
theorem not_isDigit_behind (fraction : List Char) (e? : Option Int) {s : List Char}
    (hs : Stops s) :
    ∀ c ∈ (fractionText fraction ++ (exponentText e? ++ s)).head?, c.isDigit = false := by
  intro c hc
  match fraction, e? with
  | d :: ds, _ =>
      rw [← Option.some.inj hc]
      rfl
  | [], some e =>
      rw [← Option.some.inj hc]
      rfl
  | [], none => exact hs.not_isDigit c hc

/-- Digits behind an optional minus are taken for what they are. -/
theorem sign_numeral {negative : Bool} {ds : List Char} (hne : ds ≠ [])
    (hds : ∀ c ∈ ds, c.isDigit = true) (s : List Char) :
    sign (numeral negative ds s) = (negative, ds ++ s) := by
  match negative, ds, hne with
  | true, ds, _ => rfl
  | false, d :: ds, _ =>
      have hd := hds d List.mem_cons_self
      show sign (d :: (ds ++ s)) = (false, d :: (ds ++ s))
      rw [sign]
      · rintro r hr
        exact ne_of_isDigit hd (by decide) (List.cons.inj hr).1
      · rintro r hr
        exact ne_of_isDigit hd (by decide) (List.cons.inj hr).1

/-- An exponent is read as it is written. -/
theorem exponent?_append (e : Int) {s : List Char} (hs : Stops s) :
    exponent? (exponentText (some e) ++ s) = some (e, s) := by
  show exponent? ('e' :: (Number.intText e ++ s)) = _
  rw [exponent?, if_pos (Or.inl rfl), intText_append,
    sign_numeral (digitsOf_ne_nil _) (fun c => isDigit_of_mem_digitsOf),
    digits?_append (digitsOf_ne_nil _) (fun c => isDigit_of_mem_digitsOf) hs.not_isDigit]
  show some (signed (decide (e < 0)) (Number.digitsOf e.natAbs), s) = _
  rw [signed_digitsOf]

/-- A fraction or an exponent behind the whole part makes a number a double. -/
theorem numberFrom_float (negative : Bool) (whole : List Char) {fraction : List Char}
    {e? : Option Int} {s : List Char} (hfraction : ∀ c ∈ fraction, c.isDigit = true)
    (hfloat : fraction ≠ [] ∨ e?.isSome) (hs : Stops s) :
    numberFrom negative whole (fractionText fraction ++ (exponentText e? ++ s))
      = some (.float (floatOf negative whole fraction (e?.getD 0)), s) := by
  cases fraction with
  | cons d ds =>
      cases e? with
      | some e =>
          have hbehind : ∀ c ∈ (exponentText (some e) ++ s).head?, c.isDigit = false :=
            not_isDigit_behind [] (some e) hs
          rw [numberFrom, fraction?_append (List.cons_ne_nil d ds) hfraction hbehind]
          simp only [exponent?_append e hs]
          rfl
      | none =>
          show numberFrom negative whole (fractionText (d :: ds) ++ s) = _
          rw [numberFrom, fraction?_append (List.cons_ne_nil d ds) hfraction hs.not_isDigit]
          simp only [hs.exponent?_eq_none]
          rfl
  | nil =>
      cases e? with
      | some e =>
          have hnone : fraction? (exponentText (some e) ++ s) = none := by
            rw [exponentText, List.cons_append, fraction?]
            rintro r hr
            exact absurd (List.cons.inj hr).1 (by decide)
          show numberFrom negative whole (exponentText (some e) ++ s) = _
          rw [numberFrom, hnone, exponent?_append e hs]
          rfl
      -- with neither of them the number is an integer
      | none =>
          rcases hfloat with hfloat | hfloat
          · exact absurd rfl hfloat
          · cases hfloat

/-! ## Which alternative takes a text -/

/-- The kinds of literals are tried in order, and the first that reads anything has it. -/
theorem literal?_eq_or (s : List Char) :
    literal? s = (negativeInfinity? s).or ((number? s).or ((string? s).or ((word? s).or
      ((barredSymbol? s).or (unit? s))))) := by
  simp only [literal?, List.findSome?]
  cases negativeInfinity? s <;> cases number? s <;> cases string? s <;> cases word? s <;>
    cases barredSymbol? s <;> cases unit? s <;> rfl

section Refusals

variable {c : Char} (s : List Char)

/-- The negative infinity starts with its sign. -/
theorem negativeInfinity?_eq_none (h : c ≠ '-') : negativeInfinity? (c :: s) = none := by
  rw [negativeInfinity?]
  rintro r hr
  exact h (List.cons.inj hr).1

/-- A number starts with a sign or a digit. -/
theorem number?_eq_none (hm : c ≠ '-') (hd : c.isDigit = false) : number? (c :: s) = none := by
  have hnil : (c :: s).takeWhile Char.isDigit = [] :=
    List.takeWhile_cons_of_neg (by rw [hd]; exact Bool.false_ne_true)
  rw [number?]
  · rw [digits?, hnil, if_pos List.isEmpty_nil]
    rfl
  · rintro r hr
    exact hm (List.cons.inj hr).1

/-- A string starts with a quotation mark. -/
theorem string?_eq_none (h : c ≠ '"') : string? (c :: s) = none := by
  rw [string?, unquote_of_ne h]
  rfl

/-- A word starts with one of the characters that may start it. -/
theorem word?_eq_none (h : startsWord c = false) : word? (c :: s) = none := by
  rw [word?, Text.word?, if_neg (by rw [h]; exact Bool.false_ne_true)]
  rfl

/-- A symbol that is no word starts with a bar. -/
theorem barredSymbol?_eq_none (h : c ≠ '|') : barredSymbol? (c :: s) = none := by
  rw [barredSymbol?, unquote_of_ne h]
  rfl

/-- The unit starts with a parenthesis. -/
theorem unit?_eq_none (h : c ≠ '(') : unit? (c :: s) = none := by
  rw [unit?]
  rintro r hr
  exact h (List.cons.inj hr).1

/-- Only the unit literal starts with a parenthesis. -/
theorem literal?_parenthesis : literal? ('(' :: s) = unit? ('(' :: s) := by
  rw [literal?_eq_or, negativeInfinity?_eq_none s (by decide),
    number?_eq_none s (by decide) rfl, string?_eq_none s (by decide), word?_eq_none s rfl,
    barredSymbol?_eq_none s (by decide)]
  rfl

end Refusals

/-- No literal starts with a blank, a semicolon or a closing parenthesis. -/
theorem literal?_eq_none {c : Char} (h : isBlank c = true ∨ c = ';' ∨ c = ')') (s : List Char) :
    literal? (c :: s) = none := by
  have hne {d : Char} (hb : isBlank d = false) (hs : d ≠ ';') (hp : d ≠ ')') : c ≠ d := by
    rintro rfl
    rcases h with h | h | h
    · rw [hb] at h
      cases h
    · exact hs h
    · exact hp h
  have hword : continuesWord c = false := by
    rcases h with h | rfl | rfl
    · exact (stops_cons_blank h s).not_continuesWord c rfl
    · rfl
    · rfl
  have hstart : startsWord c = false := by
    cases hc : startsWord c with
    | false => rfl
    | true =>
        rw [continuesWord_of_startsWord hc] at hword
        cases hword
  have hdigit : c.isDigit = false := by
    cases hc : c.isDigit with
    | false => rfl
    | true =>
        rw [continuesWord_of_isDigit hc] at hword
        cases hword
  have hminus : c ≠ '-' := hne (by decide) (by decide) (by decide)
  rw [literal?_eq_or, negativeInfinity?_eq_none s hminus, number?_eq_none s hminus hdigit,
    string?_eq_none s (hne (by decide) (by decide) (by decide)), word?_eq_none s hstart,
    barredSymbol?_eq_none s (hne (by decide) (by decide) (by decide)),
    unit?_eq_none s (hne (by decide) (by decide) (by decide))]
  rfl

end TreeGrammar.Read
