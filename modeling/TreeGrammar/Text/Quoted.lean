/-! # Quoted text — marks and backslashes

    A text between two equal marks is written with a backslash before every mark and
    every backslash inside it, and every other character as it is.  Reading undoes
    this and refuses a backslash before any other character. -/

namespace TreeGrammar.Text

/-- Puts a backslash before every mark and every backslash. -/
def escape (mark : Char) : List Char → List Char
  | [] => []
  | c :: rest =>
    if c = mark ∨ c = '\\' then '\\' :: c :: escape mark rest else c :: escape mark rest

/-- Encloses an escaped text in its marks. -/
def quote (mark : Char) (cs : List Char) : List Char :=
  mark :: (escape mark cs ++ [mark])

/-- Reads an escaped text up to its closing mark; the rest follows the mark. -/
def unescape (mark : Char) : List Char → Option (List Char × List Char)
  | [] => none
  | '\\' :: c :: rest =>
    if c = mark ∨ c = '\\' then (unescape mark rest).map fun (cs, r) => (c :: cs, r) else none
  | c :: rest =>
    if c = mark then some ([], rest)
    else if c = '\\' then none
    else (unescape mark rest).map fun (cs, r) => (c :: cs, r)

/-- Reads a text between two marks. -/
def unquote (mark : Char) : List Char → Option (List Char × List Char)
  | c :: rest => if c = mark then unescape mark rest else none
  | [] => none

theorem length_unescape_le {mark : Char} {s cs rest : List Char}
    (h : unescape mark s = some (cs, rest)) : rest.length ≤ s.length := by
  fun_induction unescape mark s generalizing cs with
  | case1 => simp at h
  | case2 c r hc ih =>
    obtain ⟨⟨ds, r'⟩, hr, he⟩ := Option.map_eq_some_iff.1 h
    obtain ⟨rfl, rfl⟩ := Prod.mk.inj he
    have := ih hr
    simp only [List.length_cons]
    omega
  | case3 => simp at h
  | case4 c r => simp_all
  | case5 => simp at h
  | case6 c r _ _ _ ih =>
    obtain ⟨⟨ds, r'⟩, hr, he⟩ := Option.map_eq_some_iff.1 h
    obtain ⟨rfl, rfl⟩ := Prod.mk.inj he
    have := ih hr
    simp only [List.length_cons]
    omega

/-- A quotation is taken off the text with its closing mark. -/
theorem length_unquote_lt {mark : Char} {s cs rest : List Char}
    (h : unquote mark s = some (cs, rest)) : rest.length < s.length := by
  match s, h with
  | c :: r, h =>
    by_cases hc : c = mark
    · rw [unquote, if_pos hc] at h
      exact Nat.lt_succ_of_le (length_unescape_le h)
    · rw [unquote, if_neg hc] at h
      cases h

end TreeGrammar.Text
