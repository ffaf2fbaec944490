/-! # Words — ASCII identifiers

    A word starts with a letter or an underscore and goes on with letters, digits and
    underscores, all of them ASCII. -/

namespace TreeGrammar.Text

/-- The characters a word may start with. -/
def startsWord (c : Char) : Bool :=
  c.isAlpha || c == '_'

/-- The characters a word may go on with. -/
def continuesWord (c : Char) : Bool :=
  c.isAlphanum || c == '_'

/-- Holds of texts that are one word. -/
def isWord : List Char → Bool
  | [] => false
  | c :: rest => startsWord c && rest.all continuesWord

/-- Reads the longest word at the start of a text. -/
def word? : List Char → Option (List Char × List Char)
  | c :: rest =>
    if startsWord c then
      some (c :: rest.takeWhile continuesWord, rest.dropWhile continuesWord)
    else none
  | [] => none

theorem length_dropWhile_le (p : Char → Bool) (s : List Char) :
    (s.dropWhile p).length ≤ s.length :=
  (List.dropWhile_sublist p).length_le

/-- A word is taken off the text. -/
theorem length_word?_lt {s w rest : List Char} (h : word? s = some (w, rest)) :
    rest.length < s.length := by
  match s, h with
  | c :: r, h =>
    by_cases hc : startsWord c
    · rw [word?, if_pos hc] at h
      obtain ⟨-, rfl⟩ := Prod.mk.inj (Option.some.inj h)
      exact Nat.lt_succ_of_le (length_dropWhile_le _ r)
    · rw [word?, if_neg hc] at h
      cases h

end TreeGrammar.Text
