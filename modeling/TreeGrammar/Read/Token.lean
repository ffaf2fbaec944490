import TreeGrammar.Read.Literal

/-! # Tokens — the text of a tree in pieces

    A token is a literal, an opening parenthesis with the word behind it, or a closing
    parenthesis.  Tokens need no padding between them. -/

namespace TreeGrammar.Read

/-- A piece of the text of a tree. -/
inductive Token where
  | literal (l : Literal)
  | opening (head : String)
  | closing
  deriving DecidableEq

namespace Token

/-- Takes an opening parenthesis and a word. -/
def opening? (s : List Char) : Option (Token × List Char) :=
  match s with
  | '(' :: rest =>
    (Text.word? (dropPadding rest)).map fun (w, rest) => (.opening (String.ofList w), rest)
  | _ => none

/-- Takes a token from the start of a text without padding. -/
def next? (s : List Char) : Option (Token × List Char) :=
  match s with
  | ')' :: rest => some (.closing, rest)
  | _ =>
    match literal? s with
    | some (l, rest) => some (.literal l, rest)
    | none => opening? s

/-- An opening parenthesis is taken off the text with its word. -/
theorem length_opening?_lt {s rest : List Char} {t : Token} (h : opening? s = some (t, rest)) :
    rest.length < s.length := by
  unfold opening? at h
  split at h
  · next r =>
    obtain ⟨⟨w, r'⟩, hw, he⟩ := Option.map_eq_some_iff.1 h
    obtain ⟨-, rfl⟩ := Prod.mk.inj he
    have := Text.length_word?_lt hw
    have := length_dropPadding_le r
    simp only [List.length_cons]
    omega
  · cases h

/-- Every token is taken off the text. -/
theorem length_next?_lt {s rest : List Char} {t : Token} (h : next? s = some (t, rest)) :
    rest.length < s.length := by
  unfold next? at h
  split at h
  · obtain ⟨-, rfl⟩ := Prod.mk.inj (Option.some.inj h)
    simp
  · split at h
    · next hl =>
      obtain ⟨-, rfl⟩ := Prod.mk.inj (Option.some.inj h)
      exact length_literal?_lt hl
    · exact length_opening?_lt h

/-- The tokens of a whole text. -/
def list? (s : List Char) : Option (List Token) :=
  match hs : dropPadding s with
  | [] => some []
  | c :: r =>
    match ht : next? (c :: r) with
    | some (t, rest) =>
      have : rest.length < s.length :=
        Nat.lt_of_lt_of_le (length_next?_lt ht) (hs ▸ length_dropPadding_le s)
      (list? rest).map (t :: ·)
    | none => none
termination_by s.length

end Token

end TreeGrammar.Read
