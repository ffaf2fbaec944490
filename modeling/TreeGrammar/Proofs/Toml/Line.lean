import Mathlib
import TreeGrammar.Proofs.Codec
import TreeGrammar.Proofs.Read.Literal
import TreeGrammar.Toml.Document

/-! # Lines of TOML

    What a line says ends before spaces, a comment and a line break, none of which is
    part of it, and lines without anything else are passed over. -/

namespace TreeGrammar.Toml

/-! ## The ends of lines -/

/-- Spaces may stand in comments. -/
theorem isPrintable_of_isSpace {c : Char} (h : isSpace c = true) : isPrintable c = true := by
  rw [isSpace, Bool.or_eq_true, beq_iff_eq, beq_iff_eq] at h
  rcases h with rfl | rfl
  · decide
  · decide

/-- The text is empty or starts with a character that no remark holds. -/
def Stops (s : List Char) : Prop :=
  ∀ c ∈ s.head?, isPrintable c = false

theorem stops_nil : Stops [] := by
  intro c hc
  cases hc

/-- A line break ends a comment. -/
theorem Break.stops {b : List Char} (hb : Break b) (s : List Char) : Stops (b ++ s) := by
  intro c hc
  cases hb with
  | lineFeed =>
      obtain rfl : '\n' = c := Option.some.inj hc
      decide
  | both =>
      obtain rfl : '\r' = c := Option.some.inj hc
      decide

theorem Break.length_pos {b : List Char} (hb : Break b) : 0 < b.length := by
  cases hb <;> decide

theorem dropSpaces_dropSpaces (s : List Char) : dropSpaces (dropSpaces s) = dropSpaces s :=
  List.dropWhile_idempotent isSpace s

/-- Where no space stands, none is dropped. -/
theorem dropSpaces_of_not {c : Char} (h : isSpace c = false) (s : List Char) :
    dropSpaces (c :: s) = c :: s :=
  List.dropWhile_cons_of_neg (by rw [h]; exact Bool.false_ne_true)

section Ends

variable {r s : List Char}

/-- Behind a remark there are no spaces left. -/
theorem Stops.dropSpaces_eq (hs : Stops s) : dropSpaces s = s := by
  cases s with
  | nil => rfl
  | cons c s =>
      refine dropSpaces_of_not ?_ s
      rw [← Bool.not_eq_true]
      intro hc
      have hprintable := hs c rfl
      rw [isPrintable_of_isSpace hc] at hprintable
      cases hprintable

/-- A remark is dropped as a whole, and nothing else is. -/
theorem Remark.dropComment_dropSpaces (hr : Remark r) (hs : Stops s) :
    dropComment (dropSpaces (r ++ s)) = s := by
  induction hr with
  | nil =>
      rw [List.nil_append, hs.dropSpaces_eq, dropComment]
      rintro rest rfl
      exact absurd (hs '#' rfl) (by decide)
  | space hc _ ih =>
      rw [List.cons_append, dropSpaces, List.dropWhile_cons_of_pos hc]
      exact ih
  | comment hbody =>
      rw [List.cons_append, dropSpaces_of_not (by decide)]
      exact (Read.takeWhile_dropWhile_append hbody hs).2

/-- A line ends with a remark and a break. -/
theorem endLine?_break {b : List Char} (hr : Remark r) (hb : Break b) :
    endLine? (r ++ (b ++ s)) = some s := by
  rw [endLine?, hr.dropComment_dropSpaces (hb.stops s)]
  cases hb <;> rfl

/-- The last line ends with a remark. -/
theorem endLine?_end (hr : Remark r) : endLine? r = some [] := by
  have hdrop := hr.dropComment_dropSpaces stops_nil
  rw [List.append_nil] at hdrop
  rw [endLine?, hdrop]

/-- A line ends the same way behind spaces. -/
theorem endLine?_dropSpaces (s : List Char) : endLine? (dropSpaces s) = endLine? s := by
  rw [endLine?, endLine?, dropSpaces_dropSpaces]

end Ends

/-! ## Blank lines -/

/-- Where no line ends, only spaces are dropped. -/
theorem dropLines_of_none {s : List Char} (h : endLine? s = none) : dropLines s = dropSpaces s := by
  rw [dropLines]
  rw [← endLine?_dropSpaces] at h
  cases hs : dropSpaces s with
  | nil => rfl
  | cons c rest =>
      rw [hs] at h
      simp only [h]

/-- Where a line ends without anything else, the next one is looked at. -/
theorem dropLines_of_some {s s' : List Char} (h : endLine? s = some s') (hne : dropSpaces s ≠ [])
    (hlt : s'.length < s.length) : dropLines s = dropLines s' := by
  rw [dropLines]
  rw [← endLine?_dropSpaces] at h
  cases hs : dropSpaces s with
  | nil => exact absurd hs hne
  | cons c rest =>
      rw [hs] at h
      simp only [h, if_pos hlt]

/-- A line with nothing but a remark is dropped. -/
theorem dropLines_line {r b : List Char} (hr : Remark r) (hb : Break b) (s : List Char) :
    dropLines (r ++ (b ++ s)) = dropLines s := by
  -- the line break is no space, and the text gets shorter by it
  refine dropLines_of_some (endLine?_break hr hb) ?_ ?_
  · intro hnil
    have hdrop := hr.dropComment_dropSpaces (hb.stops s)
    rw [hnil] at hdrop
    have hpos := hb.length_pos
    rw [(List.append_eq_nil_iff.mp hdrop.symm).1] at hpos
    cases hpos
  · have hpos := hb.length_pos
    rw [List.length_append, List.length_append]
    omega

/-- A character of bare keys is none of the others. -/
theorem ne_of_inBareKey {c d : Char} (hc : inBareKey c = true) (hd : inBareKey d = false) :
    c ≠ d := by
  rintro rfl
  rw [hd] at hc
  cases hc

/-- No space is part of a bare key. -/
theorem not_isSpace_of_inBareKey {c : Char} (h : inBareKey c = true) : isSpace c = false := by
  rw [isSpace, Bool.or_eq_false_iff, beq_eq_false_iff_ne, beq_eq_false_iff_ne]
  exact ⟨ne_of_inBareKey h (by decide), ne_of_inBareKey h (by decide)⟩

/-- No line ends where a key starts. -/
theorem dropLines_key {c : Char} (hc : inBareKey c = true) (s : List Char) :
    dropLines (c :: s) = c :: s := by
  have hne {d : Char} (hd : inBareKey d = false) : c ≠ d := ne_of_inBareKey hc hd
  have hspace : isSpace c = false := not_isSpace_of_inBareKey hc
  have hcomment : dropComment (c :: s) = c :: s := by
    rw [dropComment]
    rintro rest hrest
    exact hne (by decide) (List.cons.inj hrest).1
  have hend : endLine? (c :: s) = none := by
    rw [endLine?, dropSpaces_of_not hspace, hcomment]
    split
    · next h => cases h
    · next h => exact absurd (List.cons.inj h).1 (hne (by decide))
    · next h => exact absurd (List.cons.inj h).1 (hne (by decide))
    · rfl
  rw [dropLines_of_none hend, dropSpaces_of_not hspace]

/-! ## The start of a document -/

/-- Where there is no mark, none is dropped. -/
theorem Unmarked.dropByteOrderMark_eq {t : List Char} (ht : Unmarked t) :
    dropByteOrderMark t = t := by
  rw [dropByteOrderMark]
  exact ht

/-! ## Statements line by line -/

/-- A line with nothing but a remark is no statement. -/
theorem statements?_remark {r b t : List Char} (hr : Remark r) (hb : Break b) {sts : List Statement}
    (h : statements? t = some sts) : statements? (r ++ (b ++ t)) = some sts := by
  have hle : t.length ≤ (r ++ (b ++ t)).length := by
    rw [List.length_append, List.length_append]
    omega
  rw [statements?] at h ⊢
  rw [dropLines_line hr hb]
  cases hlines : dropLines t with
  | nil =>
      rw [hlines] at h
      exact h
  | cons c more =>
      simp only [hlines] at h ⊢
      cases hst : statement? (c :: more) with
      | none => simp only [hst, reduceCtorEq] at h
      | some st =>
          obtain ⟨st, rest⟩ := st
          simp only [hst] at h ⊢
          cases hend : endLine? rest with
          | none => simp only [hend, reduceCtorEq] at h
          | some rest' =>
              simp only [hend] at h ⊢
              -- what is left is shorter than the text, and so than the text behind the remark
              obtain ⟨hlt, hrest⟩ := Option.ite_none_right_eq_some.mp h
              rw [if_pos (Nat.lt_of_lt_of_le hlt hle)]
              exact hrest

/-- What a line says from its first character is the first statement. -/
theorem statements?_cons {rest s : List Char} {c : Char} {more : List Char} {st : Statement}
    (hc : inBareKey c = true) (hst : statement? (c :: more) = some (st, rest))
    (hend : endLine? rest = some s) (hlt : s.length ≤ more.length) :
    statements? (c :: more) = (statements? s).map (st :: ·) := by
  have hlength : s.length < (c :: more).length := Nat.lt_succ_of_le hlt
  rw [statements?, dropLines_key hc]
  simp only [hst, hend, if_pos hlength]

end TreeGrammar.Toml
