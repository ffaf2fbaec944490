import TreeGrammar.Proofs.Toml.Line

/-! # Keys and values of TOML

    A line that gives a bare key a value is read as just that, when the value is an
    integer in decimal or a string without escapes.  A run of characters could go on
    behind the digits, so `EndsRun` says what must not follow them. -/

namespace TreeGrammar.Toml

open Read (takeWhile_dropWhile_append digitsOf_ne_nil digitsOf_eq_cons isDigit_of_mem_digitsOf
  ofDigits_digitsOf)

/-! ## Keys -/

section Keys

variable {k s : List Char} (hne : k ≠ []) (hk : ∀ c ∈ k, inBareKey c = true)
include hne hk

/-- A bare key is read up to the first character that is none of its own. -/
theorem key?_bare (hs : ∀ c ∈ s.head?, inBareKey c = false) : key? (k ++ s) = some (k, s) := by
  obtain ⟨htake, hdrop⟩ := takeWhile_dropWhile_append hk hs
  rw [key?, htake, hdrop, if_neg]
  rw [List.isEmpty_iff]
  exact hne

/-- A bare key alone is a path. -/
theorem path?_bare (hspace : dropSpaces s = s) (hpoint : ∀ r, s ≠ '.' :: r) :
    path? (k ++ ' ' :: s) = some (([], k), s) := by
  have hstart : dropSpaces (k ++ ' ' :: s) = k ++ ' ' :: s := by
    cases k with
    | nil => exact absurd rfl hne
    | cons c k => exact dropSpaces_of_not (not_isSpace_of_inBareKey (hk c List.mem_cons_self)) _
  have hkey : key? (k ++ ' ' :: s) = some (k, ' ' :: s) := by
    refine key?_bare hne hk ?_
    intro c hc
    obtain rfl : ' ' = c := Option.some.inj hc
    decide
  have hrest : dropSpaces (' ' :: s) = s := hspace
  have hkeys : keys? (k ++ ' ' :: s) = some (([], k), s) := by
    rw [keys?, hstart, hkey]
    simp only [hrest]
  rw [path?, hkeys]
  rfl

/-- A bare key with its value is a statement of the document. -/
theorem statement?_bare {value rest : List Char} {item : Item}
    (hspace : dropSpaces value = value) (hvalue : value? nestingLimit value = some (item, rest)) :
    statement? (k ++ (' ' :: '=' :: ' ' :: value)) = some (.assign [] k item, rest) := by
  have hequals : dropSpaces ('=' :: ' ' :: value) = '=' :: ' ' :: value :=
    dropSpaces_of_not (by decide) _
  have hpath : path? (k ++ ' ' :: '=' :: ' ' :: value) = some (([], k), '=' :: ' ' :: value) :=
    path?_bare hne hk hequals (fun r h => absurd (List.cons.inj h).1 (by decide))
  have hgap : dropSpaces (' ' :: value) = value := hspace
  have hpair : pair? dropSpaces (value? nestingLimit) (k ++ ' ' :: '=' :: ' ' :: value)
      = some ((([], k), item), rest) := by
    rw [pair?, hpath]
    simp only [hequals]
    rw [hgap, hvalue]
    rfl
  have hbracket : ∀ r, k ++ ' ' :: '=' :: ' ' :: value ≠ '[' :: r := by
    intro r h
    cases k with
    | nil => exact hne rfl
    | cons c k =>
        have hc := hk c List.mem_cons_self
        rw [(List.cons.inj h).1] at hc
        exact absurd hc (by decide)
  rw [statement?]
  · rw [hpair]
    rfl
  · exact fun r => hbracket ('[' :: r)
  · exact hbracket

end Keys

/-! ## Strings -/

/-- A character that stands for itself in a basic string. -/
def isPlain (c : Char) : Bool :=
  isPrintable c && c != '"' && c != '\\'

/-- Plain characters are read up to the closing quotation mark. -/
theorem basicFrom_plain {cs : List Char} (hcs : ∀ c ∈ cs, isPlain c = true) (rest : List Char) :
    basicFrom false .plain (cs ++ '"' :: rest) = some (cs, rest) := by
  induction cs with
  | nil =>
      rw [List.nil_append, basicFrom, basicFrom.plainStep]
      rfl
  | cons c cs ih =>
      obtain ⟨hc, hcs⟩ := List.forall_mem_cons.mp hcs
      rw [isPlain, Bool.and_eq_true, Bool.and_eq_true, bne_iff_ne, bne_iff_ne] at hc
      obtain ⟨⟨hprintable, hquote⟩, hslash⟩ := hc
      have hallowed : isAllowed false c (cs ++ '"' :: rest) = true := by
        rw [isAllowed, hprintable, Bool.true_or]
      rw [List.cons_append, basicFrom, basicFrom.plainStep, if_neg hquote, if_neg hslash,
        if_pos hallowed, ih hcs]
      rfl

/-- A string without escapes is read as it is. -/
theorem value?_plain {cs : List Char} (hne : cs ≠ []) (hcs : ∀ c ∈ cs, isPlain c = true)
    (nesting : Nat) (rest : List Char) :
    value? nesting ('"' :: (cs ++ '"' :: rest)) = some (.string cs, rest) := by
  -- an empty string in front of a quotation mark would open one of several lines
  have hmarks : twoMarks '"' (cs ++ '"' :: rest) = false := by
    cases cs with
    | nil => exact absurd rfl hne
    | cons c cs =>
        have hc : c ≠ '"' := by
          rintro rfl
          exact absurd (hcs '"' List.mem_cons_self) (by decide)
        rw [twoMarks, beq_eq_false_iff_ne]
        rintro h
        exact hc (List.cons.inj h).1
  have hstring : string? ('"' :: (cs ++ '"' :: rest)) = some (cs, rest) := by
    rw [string?, hmarks]
    exact basicFrom_plain hcs rest
  rw [value?]
  · rw [if_pos (Or.inl rfl), hstring]
    rfl
  · exact fun h => absurd h (by decide)
  · exact fun h => absurd h (by decide)

/-! ## Integers -/

/-- A run of characters ends before the text. -/
structure EndsRun (s : List Char) : Prop where
  stops : ∀ c ∈ s.head?, inRun c = false
  /-- No time stands behind the space that may follow a date. -/
  notTime : ∀ c rest, s = ' ' :: c :: rest → c.isDigit = false

/-- A run is taken up to where it ends. -/
theorem takeRun_append {run s : List Char} (hrun : ∀ c ∈ run, inRun c = true) (hs : EndsRun s) :
    takeRun (run ++ s) = (run, s) := by
  obtain ⟨htake, hdrop⟩ := takeWhile_dropWhile_append hrun hs.stops
  rw [takeRun, htake, hdrop]
  split
  · next c more =>
      rw [hs.notTime c more rfl, Bool.and_false, if_neg Bool.false_ne_true]
  · rfl

/-- Digits are characters of runs. -/
theorem inRun_of_isDigit {c : Char} (h : c.isDigit = true) : inRun c = true := by
  simp only [inRun, Char.isAlphanum, h, Bool.or_true, Bool.true_or]

/-- Where the characters of runs lie. -/
theorem toNat_of_inRun {c : Char} (h : inRun c = true) : 43 ≤ c.toNat ∧ c.toNat ≤ 122 := by
  have hsigns : Text.continuesWord c = true ∨ c = '-' ∨ c = '+' ∨ c = '.' ∨ c = ':' := by
    simpa only [inRun, Text.continuesWord, Bool.or_eq_true, beq_iff_eq, or_assoc] using h
  rcases hsigns with hword | rfl | rfl | rfl | rfl
  · have := Read.toNat_of_continuesWord hword
    omega
  · decide
  · decide
  · decide
  · decide

/-- Remarks and line breaks have no characters of runs. -/
theorem not_inRun {c : Char} (h : isSpace c = true ∨ c = '#' ∨ isPrintable c = false) :
    inRun c = false := by
  rw [← Bool.not_eq_true]
  intro hc
  obtain ⟨hlow, hhigh⟩ := toNat_of_inRun hc
  rcases h with h | rfl | h
  · rw [isSpace, Bool.or_eq_true, beq_iff_eq, beq_iff_eq] at h
    rcases h with rfl | rfl
    · exact absurd hlow (by decide)
    · exact absurd hlow (by decide)
  · exact absurd hlow (by decide)
  · have hprintable : isPrintable c = true := by
      rw [isPrintable, Bool.or_eq_true, Bool.and_eq_true, decide_eq_true_iff, bne_iff_ne]
      exact Or.inr ⟨by omega, by omega⟩
    rw [h] at hprintable
    cases hprintable

/-- No run goes on in a remark. -/
theorem Remark.not_inRun {r s : List Char} (hr : Remark r) (hs : Stops s) :
    ∀ c ∈ (r ++ s).head?, inRun c = false := by
  intro c hc
  cases hr with
  | nil => exact Toml.not_inRun (Or.inr (Or.inr (hs c hc)))
  | @space d r hd _ =>
      obtain rfl : d = c := Option.some.inj hc
      exact Toml.not_inRun (Or.inl hd)
  | comment _ =>
      obtain rfl : '#' = c := Option.some.inj hc
      exact Toml.not_inRun (Or.inr (Or.inl rfl))

/-- A run ends before a remark. -/
theorem Remark.endsRun {r s : List Char} (hr : Remark r) (hs : Stops s) : EndsRun (r ++ s) := by
  refine ⟨hr.not_inRun hs, ?_⟩
  intro c rest heq
  cases hr with
  | nil =>
      rw [List.nil_append] at heq
      subst heq
      exact absurd (hs ' ' rfl) (by decide)
  | @space d r hd hr =>
      have hrest : r ++ s = c :: rest := (List.cons.inj heq).2
      have hc := hr.not_inRun hs c (by rw [hrest]; rfl)
      rw [← Bool.not_eq_true]
      intro hdigit
      rw [inRun_of_isDigit hdigit] at hc
      cases hc
  | comment _ => exact absurd (List.cons.inj heq).1 (by decide)

/-- Digits without underscores stay as they are. -/
theorem ungroup?_eq_some {p : Char → Bool} (hunderscore : p '_' = false) {ds : List Char}
    (hne : ds ≠ []) (hds : ∀ c ∈ ds, p c = true) : ungroup? p ds = some ds := by
  induction ds with
  | nil => exact absurd rfl hne
  | cons c ds ih =>
      obtain ⟨hc, hds⟩ := List.forall_mem_cons.mp hds
      cases ds with
      | nil => rw [ungroup?, if_pos hc]
      | cons d ds =>
          -- an underscore behind the first digit would group it
          have hd : d ≠ '_' := by
            rintro rfl
            rw [hds '_' List.mem_cons_self] at hunderscore
            cases hunderscore
          rw [ungroup?, if_pos hc, ih (List.cons_ne_nil d ds) hds]
          · rfl
          · exact List.cons_ne_nil d ds
          · exact fun r h => hd (List.cons.inj h).1

/-- A decimal digit is a hexadecimal one of the same value. -/
theorem hexDigit?_of_isDigit {c : Char} (h : c.isDigit = true) :
    hexDigit? c = some (c.toNat - '0'.toNat) := by
  refine if_pos ?_
  rw [Char.isDigit, Bool.and_eq_true, decide_eq_true_iff, decide_eq_true_iff] at h
  exact h

theorem isDigitOf_of_isDigit {c : Char} (h : c.isDigit = true) : isDigitOf 10 c = true := by
  have hrange : 48 ≤ c.toNat ∧ c.toNat ≤ 57 := Char.isDigit_iff_toNat.mp h
  have hlt : c.toNat - 48 < 10 := by omega
  rw [isDigitOf, hexDigit?_of_isDigit h]
  exact decide_eq_true hlt

/-- In base ten, digits have the value of the decimal. -/
theorem valueOf_eq_ofDigits {ds : List Char} (hds : ∀ c ∈ ds, c.isDigit = true) :
    valueOf 10 ds = Number.ofDigits ds := by
  refine List.foldl_ext _ _ 0 fun n c hc => ?_
  rw [hexDigit?_of_isDigit (hds c hc)]
  rfl

/-- The digits of a number are a group of that value. -/
theorem grouped?_digitsOf (n : Nat) : grouped? 10 (Number.digitsOf n) = some n := by
  have hds : ∀ c ∈ Number.digitsOf n, c.isDigit = true := fun c => isDigit_of_mem_digitsOf
  rw [grouped?, ungroup?_eq_some (by decide) (digitsOf_ne_nil n)
    (fun c hc => isDigitOf_of_isDigit (hds c hc))]
  show some (valueOf 10 (Number.digitsOf n)) = some n
  rw [valueOf_eq_ofDigits hds, ofDigits_digitsOf]

/-- A positive number is written with no zero at its front. -/
theorem head?_digitsOf {n : Nat} (h : 0 < n) : (Number.digitsOf n).head? ≠ some '0' := by
  induction n using Nat.strongRecOn with
  | ind n ih =>
      by_cases hlt : n < 10
      · rw [Number.digitsOf, Nat.toDigits_of_lt_base hlt]
        intro hzero
        have hdigit : n.digitChar = '0' := Option.some.inj hzero
        have hvalue := Nat.toNat_digitChar_of_lt_ten hlt
        rw [hdigit] at hvalue
        change 48 = 48 + n at hvalue
        omega
      · have hnext := ih (n / 10) (by omega) (by omega)
        rw [Number.digitsOf, Nat.toDigits_of_base_le (by decide) (Nat.le_of_not_lt hlt)]
        rw [List.head?_append_of_ne_nil _ Nat.toDigits_ne_nil]
        exact hnext

/-- The digits of a number are a decimal of that value. -/
theorem decimal?_digitsOf (n : Nat) : decimal? (Number.digitsOf n) = some n := by
  rw [decimal?, if_neg, grouped?_digitsOf]
  rintro ⟨hzero, hlength⟩
  cases Nat.eq_zero_or_pos n with
  | inl hn =>
      subst hn
      exact absurd hlength (by decide)
  | inr hn => exact head?_digitsOf hn hzero

/-- A digit is no sign. -/
theorem unsign_of_isDigit {c : Char} (h : c.isDigit = true) (s : List Char) :
    unsign (c :: s) = (false, c :: s) := by
  rw [unsign]
  · rintro r hr
    exact Read.ne_of_isDigit h (by decide) (List.cons.inj hr).1
  · rintro r hr
    exact Read.ne_of_isDigit h (by decide) (List.cons.inj hr).1

/-- An integer in decimal is no integer of another base. -/
theorem integer?_digitsOf {n : Nat} (h : n < Nat.pow 2 128) :
    integer? (Number.digitsOf n) = some (n : Int) := by
  have hds : ∀ c ∈ Number.digitsOf n, c.isDigit = true := fun c => isDigit_of_mem_digitsOf
  have hbase {d : Char} (hd : d.isDigit = false) (r : List Char) :
      Number.digitsOf n ≠ '0' :: d :: r := by
    intro heq
    have hmem : d ∈ Number.digitsOf n := by
      rw [heq]
      exact List.mem_cons_of_mem _ List.mem_cons_self
    rw [hds d hmem] at hd
    cases hd
  have hunsign : unsign (Number.digitsOf n) = (false, Number.digitsOf n) := by
    obtain ⟨c, ds, hn, hc⟩ := digitsOf_eq_cons n
    rw [hn]
    exact unsign_of_isDigit hc ds
  have hbounds : (decide (-Int.ofNat (Nat.pow 2 127) ≤ (n : Int))
      && decide ((n : Int) < Nat.pow 2 128)) = true := by
    rw [Bool.and_eq_true, decide_eq_true_iff, decide_eq_true_iff]
    have hlow : -Int.ofNat (Nat.pow 2 127) ≤ 0 := by decide
    exact ⟨Int.le_trans hlow (Int.natCast_nonneg n), Int.ofNat_lt.mpr h⟩
  rw [integer?]
  · rw [hunsign]
    simp only [decimal?_digitsOf]
    exact Option.filter_some_pos hbounds
  · exact hbase (by decide)
  · exact hbase (by decide)
  · exact hbase (by decide)

/-- An integer in decimal is read as it is. -/
theorem value?_digitsOf {n : Nat} (h : n < Nat.pow 2 128) (nesting : Nat) {s : List Char}
    (hs : EndsRun s) : value? nesting (Number.digitsOf n ++ s) = some (.integer n, s) := by
  have hds : ∀ c ∈ Number.digitsOf n, c.isDigit = true := fun c => isDigit_of_mem_digitsOf
  have hrun := takeRun_append (fun c hc => inRun_of_isDigit (hds c hc)) hs
  have hinteger := integer?_digitsOf h
  obtain ⟨c, ds, hn, hc⟩ := digitsOf_eq_cons n
  have hne {d : Char} (hd : d.isDigit = false) : c ≠ d := Read.ne_of_isDigit hc hd
  rw [hn] at hrun hinteger ⊢
  have hvalue : runValue? (c :: ds) = some (.integer n) := by
    rw [runValue?, if_neg, if_neg, hinteger]
    · exact fun heq => hne (by decide) (List.cons.inj heq).1
    · exact fun heq => hne (by decide) (List.cons.inj heq).1
  rw [List.cons_append] at hrun ⊢
  rw [value?]
  · rw [if_neg, hrun]
    · show (runValue? (c :: ds)).map _ = _
      rw [hvalue]
      rfl
    · exact fun hmark => hmark.elim (hne (by decide)) (hne (by decide))
  · exact hne (by decide)
  · exact hne (by decide)

end TreeGrammar.Toml
