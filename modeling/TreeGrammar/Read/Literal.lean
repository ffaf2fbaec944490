import TreeGrammar.Literal
import TreeGrammar.Number.Integer
import TreeGrammar.Read.Padding

/-! # Reading literals

    Each reader takes a literal from the start of a text and gives it with the rest.
    A number takes its fraction and its exponent only when they are complete; with
    either it is a double, without both an integer, which must fit into 64 bits. -/

namespace TreeGrammar.Read

/-- A literal and the rest of the text. -/
abbrev Taken := Option (Literal × List Char)

/-- Takes one or more digits. -/
def digits? (s : List Char) : Option (List Char × List Char) :=
  if (s.takeWhile Char.isDigit).isEmpty then none
  else some (s.takeWhile Char.isDigit, s.dropWhile Char.isDigit)

/-- Takes a sign, if there is one; whether it is a minus. -/
def sign (s : List Char) : Bool × List Char :=
  match s with
  | '-' :: rest => (true, rest)
  | '+' :: rest => (false, rest)
  | _ => (false, s)

/-- The integer written by digits. -/
def signed (negative : Bool) (ds : List Char) : Int :=
  if negative then -(Number.ofDigits ds : Int) else Number.ofDigits ds

/-- Takes the digits of a complete fraction. -/
def fraction? (s : List Char) : Option (List Char × List Char) :=
  match s with
  | '.' :: rest => digits? rest
  | _ => none

/-- Takes a complete exponent. -/
def exponent? (s : List Char) : Option (Int × List Char) :=
  match s with
  | c :: rest =>
    if c = 'e' ∨ c = 'E' then
      (digits? (sign rest).2).map fun (ds, behind) => (signed (sign rest).1 ds, behind)
    else none
  | [] => none

/-- The double written by a whole part, a fraction and an exponent. -/
def floatOf (negative : Bool) (whole fraction : List Char) (exponent : Int) : Float :=
  let x :=
    Number.Decimal.toFloat ⟨Number.ofDigits (whole ++ fraction), exponent - fraction.length⟩
  if negative then -x else x

/-- The rest of a number behind its whole part. -/
def numberFrom (negative : Bool) (whole rest : List Char) : Taken :=
  match fraction? rest with
  | some (fraction, rest) =>
    match exponent? rest with
    | some (e, rest) => some (.float (floatOf negative whole fraction e), rest)
    | none => some (.float (floatOf negative whole fraction 0), rest)
  | none =>
    match exponent? rest with
    | some (e, rest) => some (.float (floatOf negative whole [] e), rest)
    | none => (Number.int64? (signed negative whole)).map fun n => (.int n, rest)

/-- Takes a number; its sign can only be a minus. -/
def number? (s : List Char) : Taken :=
  match s with
  | '-' :: rest => (digits? rest).bind fun (whole, rest) => numberFrom true whole rest
  | _ => (digits? s).bind fun (whole, rest) => numberFrom false whole rest

/-- Takes the word for negative infinity. -/
def negativeInfinity? (s : List Char) : Taken :=
  match s with
  | '-' :: 'i' :: 'n' :: 'f' :: rest => some (.float (-Number.infinity), rest)
  | _ => none

/-- Takes a string. -/
def string? (s : List Char) : Taken :=
  (Text.unquote '"' s).map (Prod.map (fun cs => .str (String.ofList cs)) id)

/-- Takes a symbol between bars. -/
def barredSymbol? (s : List Char) : Taken :=
  (Text.unquote '|' s).map (Prod.map (fun cs => .sym (String.ofList cs)) id)

/-- The literal a word stands for; a word that is not reserved is a symbol. -/
def wordLiteral (w : String) : Literal :=
  if w = "true" then .bool true
  else if w = "false" then .bool false
  else if w = "inf" then .float Number.infinity
  else if w = "nan" then .float Number.nan
  else .sym w

/-- Takes a word. -/
def word? (s : List Char) : Taken :=
  (Text.word? s).map (Prod.map (fun cs => wordLiteral (String.ofList cs)) id)

/-- Takes a pair of parentheses with nothing but padding inside. -/
def unit? (s : List Char) : Taken :=
  match s with
  | '(' :: rest =>
    match dropPadding rest with
    | ')' :: rest => some (.unit, rest)
    | _ => none
  | _ => none

/-- Takes the first literal of all that the text may start with. -/
def literal? (s : List Char) : Taken :=
  [negativeInfinity?, number?, string?, word?, barredSymbol?, unit?].findSome? fun take => take s

/-- Digits are taken off the text. -/
theorem length_digits?_lt {s ds rest : List Char} (h : digits? s = some (ds, rest)) :
    rest.length < s.length := by
  unfold digits? at h
  split at h
  · cases h
  · next hne =>
    obtain ⟨-, rfl⟩ := Prod.mk.inj (Option.some.inj h)
    have hs := List.takeWhile_append_dropWhile (p := Char.isDigit) (l := s)
    have : (s.takeWhile Char.isDigit).length ≠ 0 := by simpa using hne
    have := congrArg List.length hs
    simp only [List.length_append] at this
    omega

theorem length_sign_le (s : List Char) : (sign s).2.length ≤ s.length := by
  unfold sign
  split <;> simp

/-- A fraction is taken off the text. -/
theorem length_fraction?_lt {s ds rest : List Char} (h : fraction? s = some (ds, rest)) :
    rest.length < s.length := by
  unfold fraction? at h
  split at h
  · have := length_digits?_lt h
    simp only [List.length_cons]
    omega
  · cases h

/-- An exponent is taken off the text. -/
theorem length_exponent?_lt {s rest : List Char} {e : Int} (h : exponent? s = some (e, rest)) :
    rest.length < s.length := by
  unfold exponent? at h
  split at h
  · next c r =>
    split at h
    · obtain ⟨⟨ds, r'⟩, hd, he⟩ := Option.map_eq_some_iff.1 h
      obtain ⟨-, rfl⟩ := Prod.mk.inj he
      have := length_digits?_lt hd
      have := length_sign_le r
      simp only [List.length_cons]
      omega
    · cases h
  · cases h

theorem length_numberFrom_le {negative : Bool} {whole s rest : List Char} {l : Literal}
    (h : numberFrom negative whole s = some (l, rest)) : rest.length ≤ s.length := by
  unfold numberFrom at h
  split at h
  · next hf =>
    have := length_fraction?_lt hf
    split at h
    · next he =>
      have := length_exponent?_lt he
      obtain ⟨-, rfl⟩ := Prod.mk.inj (Option.some.inj h)
      omega
    · obtain ⟨-, rfl⟩ := Prod.mk.inj (Option.some.inj h)
      omega
  · split at h
    · next he =>
      have := length_exponent?_lt he
      obtain ⟨-, rfl⟩ := Prod.mk.inj (Option.some.inj h)
      omega
    · obtain ⟨n, -, he⟩ := Option.map_eq_some_iff.1 h
      obtain ⟨-, rfl⟩ := Prod.mk.inj he
      exact Nat.le_refl _

/-- A number is taken off the text. -/
theorem length_number?_lt {s rest : List Char} {l : Literal} (h : number? s = some (l, rest)) :
    rest.length < s.length := by
  unfold number? at h
  split at h
  · obtain ⟨⟨whole, r⟩, hd, hn⟩ := Option.bind_eq_some_iff.1 h
    have := length_digits?_lt hd
    have := length_numberFrom_le hn
    simp only [List.length_cons]
    omega
  · obtain ⟨⟨whole, r⟩, hd, hn⟩ := Option.bind_eq_some_iff.1 h
    have := length_digits?_lt hd
    have := length_numberFrom_le hn
    omega

/-- What is made of a result leaves the rest as short as it was. -/
theorem length_map_lt {α : Type} {s rest : List Char} {l : Literal} {f : α → Literal}
    {o : Option (α × List Char)} (shorter : ∀ a r, o = some (a, r) → r.length < s.length)
    (h : o.map (Prod.map f id) = some (l, rest)) : rest.length < s.length := by
  obtain ⟨⟨a, r⟩, ho, he⟩ := Option.map_eq_some_iff.1 h
  obtain ⟨-, rfl⟩ := Prod.mk.inj he
  exact shorter a r ho

theorem length_unit?_lt {s rest : List Char} {l : Literal} (h : unit? s = some (l, rest)) :
    rest.length < s.length := by
  unfold unit? at h
  split at h
  · next r =>
    split at h
    · next r' hr =>
      obtain ⟨-, rfl⟩ := Prod.mk.inj (Option.some.inj h)
      have := length_dropPadding_le r
      rw [hr] at this
      simp only [List.length_cons] at this ⊢
      omega
    · cases h
  · cases h

/-- A literal is taken off the text, whatever its kind. -/
theorem length_literal?_lt {s rest : List Char} {l : Literal} (h : literal? s = some (l, rest)) :
    rest.length < s.length := by
  obtain ⟨take, hmem, ht⟩ := List.exists_of_findSome?_eq_some h
  simp only [List.mem_cons, List.not_mem_nil, or_false] at hmem
  rcases hmem with rfl | rfl | rfl | rfl | rfl | rfl
  · unfold negativeInfinity? at ht
    split at ht
    · obtain ⟨-, rfl⟩ := Prod.mk.inj (Option.some.inj ht)
      simp only [List.length_cons]
      omega
    · cases ht
  · exact length_number?_lt ht
  · exact length_map_lt (fun _ _ => Text.length_unquote_lt) ht
  · exact length_map_lt (fun _ _ => Text.length_word?_lt) ht
  · exact length_map_lt (fun _ _ => Text.length_unquote_lt) ht
  · exact length_unit?_lt ht

end TreeGrammar.Read
