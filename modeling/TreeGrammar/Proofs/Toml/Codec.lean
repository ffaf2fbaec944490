import TreeGrammar.Proofs.Toml.Pair
import TreeGrammar.Proofs.Toml.Table
import TreeGrammar.Toml.Codec

/-! # The codec to run with is lawful

    A document is carried out statement by statement, so that a line in front of it is one
    statement more, and a remark none.  The laws on records hold by definition, and the
    spelling of words is followed letter by letter. -/

namespace TreeGrammar.Toml

open Codec (Datum isBare)

/-! ## Lines with a value -/

/-- The characters of bare keys stand for themselves in strings. -/
theorem isPlain_of_inBareKey {c : Char} (h : inBareKey c = true) : isPlain c = true := by
  have hrun : inRun c = true := by
    simp only [inBareKey, inRun, Bool.or_eq_true] at h ⊢
    exact Or.inl (Or.inl (Or.inl h))
  obtain ⟨hlow, hhigh⟩ := toNat_of_inRun hrun
  have hprintable : isPrintable c = true := by
    rw [isPrintable, Bool.or_eq_true, Bool.and_eq_true, decide_eq_true_iff, bne_iff_ne]
    exact Or.inr ⟨by omega, by omega⟩
  rw [isPlain, Bool.and_eq_true, Bool.and_eq_true, bne_iff_ne, bne_iff_ne]
  exact ⟨⟨hprintable, ne_of_inBareKey h (by decide)⟩, ne_of_inBareKey h (by decide)⟩

/-- A bare name has characters, all of which are those of keys. -/
theorem isBare_iff {s : String} :
    isBare s = true ↔ s.toList ≠ [] ∧ ∀ c ∈ s.toList, inBareKey c = true := by
  rw [isBare, Bool.and_eq_true, Bool.not_eq_true', List.isEmpty_eq_false_iff, List.all_eq_true]

/-- No space stands in front of a value. -/
theorem dropSpaces_written (d : Datum) (rest : List Char) :
    dropSpaces (d.written ++ rest) = d.written ++ rest := by
  cases d with
  | word n =>
      obtain ⟨c, ds, hn, hc⟩ := Read.digitsOf_eq_cons n
      rw [Datum.written, hn]
      refine dropSpaces_of_not ?_ _
      rw [← Bool.not_eq_true]
      intro hspace
      have hrun := not_inRun (Or.inl hspace)
      rw [inRun_of_isDigit hc] at hrun
      cases hrun
  | name s => exact dropSpaces_of_not (by decide) _

section Lines

variable {d : Datum} (hd : d.isPlain = true)
include hd

/-- A value is read as it was written. -/
theorem value?_written {rest : List Char} (hrest : EndsRun rest) :
    value? nestingLimit (d.written ++ rest) = some (codec.item d, rest) := by
  cases d with
  | word n =>
      rw [Datum.isPlain, decide_eq_true_iff] at hd
      exact value?_digitsOf (Nat.lt_of_le_of_lt hd (by decide)) _ hrest
  | name s =>
      obtain ⟨hne, hbare⟩ := isBare_iff.mp hd
      show value? _ ('"' :: (s.toList ++ ['"'] ++ rest)) = _
      rw [List.append_assoc]
      exact value?_plain hne (fun c hc => isPlain_of_inBareKey (hbare c hc)) nestingLimit rest

variable {key : String} (hkey : isBare key = true)
include hkey

/-- The line of a key and a value is their statement. -/
theorem statement?_line {rest : List Char} (hrest : EndsRun rest) :
    statement? (Codec.line key d ++ rest)
      = some (.assign [] key.toList (codec.item d), rest) := by
  obtain ⟨hne, hbare⟩ := isBare_iff.mp hkey
  have hread := statement?_bare hne hbare (dropSpaces_written d rest) (value?_written hd hrest)
  simpa only [Codec.line, List.cons_append, List.append_assoc] using hread

/-- The line of a key and a value is the first statement of a text. -/
theorem statements?_line {rest t : List Char} (hrest : EndsRun rest) (hend : endLine? rest = some t)
    (hle : t.length ≤ rest.length) :
    statements? (Codec.line key d ++ rest)
      = (statements? t).map (.assign [] key.toList (codec.item d) :: ·) := by
  obtain ⟨hne, hbare⟩ := isBare_iff.mp hkey
  have hstatement := statement?_line hd hkey hrest
  rw [Codec.line] at hstatement ⊢
  cases hk : key.toList with
  | nil => exact absurd hk hne
  | cons c k =>
      have hc : inBareKey c = true := hbare c (by rw [hk]; exact List.mem_cons_self)
      rw [hk, List.cons_append, List.cons_append] at hstatement
      rw [List.cons_append, List.cons_append]
      refine statements?_cons hc hstatement hend ?_
      rw [List.length_append]
      omega

end Lines

/-! ## Documents -/

/-- Without the mark of byte order, a document is its statements, carried out one by one. -/
theorem document?_of_unmarked {t : List Char} (ht : Unmarked t) :
    document? (String.ofList t) = (statements? t).bind fun sts => carryOut sts [] [] := by
  rw [document?, String.toList_ofList, ht.dropByteOrderMark_eq]
  rfl

/-- A remark adds nothing to a document. -/
theorem document?_remark {r b t : List Char} {es : Entries} (hr : Remark r) (hb : Break b)
    (ht : Unmarked t) (h : document? (String.ofList t) = some es) :
    document? (String.ofList (r ++ (b ++ t))) = some es := by
  rw [document?_of_unmarked ht] at h
  obtain ⟨sts, hsts, hes⟩ := Option.bind_eq_some_iff.mp h
  rw [document?_of_unmarked (hr.unmarked hb t), statements?_remark hr hb hsts]
  exact hes

/-- A remark ends a line, and so does the break behind it or the end of the text. -/
theorem endLine?_remark {r b t : List Char} (hr : Remark r) (hb : Break b ∨ b ++ t = []) :
    EndsRun (r ++ (b ++ t)) ∧ endLine? (r ++ (b ++ t)) = some t := by
  rcases hb with hb | hnil
  · exact ⟨hr.endsRun (hb.stops t), endLine?_break hr hb⟩
  · have hends := hr.endsRun stops_nil
    rw [List.append_nil] at hends
    rw [hnil, (List.append_eq_nil_iff.mp hnil).2, List.append_nil]
    exact ⟨hends, endLine?_end hr⟩

/-- A line with a new key adds its entry in front of the others. -/
theorem document?_line {key : String} {d : Datum} {r b t : List Char} {es : Entries}
    (hkey : isBare key = true) (hd : d.isPlain = true) (hr : Remark r)
    (hb : Break b ∨ b ++ t = []) (ht : Unmarked t) (h : document? (String.ofList t) = some es)
    (hnew : Entries.get? es key.toList = none) :
    document? (String.ofList (Codec.line key d ++ (r ++ (b ++ t))))
      = some ((key.toList, codec.item d) :: es) := by
  rw [document?_of_unmarked ht] at h
  obtain ⟨sts, hsts, hes⟩ := Option.bind_eq_some_iff.mp h
  obtain ⟨hends, hend⟩ := endLine?_remark hr hb
  have hle : t.length ≤ (r ++ (b ++ t)).length := by
    rw [List.length_append, List.length_append]
    omega
  -- the statements behind the line know nothing of its key
  have hapart : Entries.Apart [(key.toList, codec.item d)] es := by
    intro other hother
    refine List.lookup_eq_none_iff.mpr fun e he => ?_
    obtain rfl := List.mem_singleton.mp he
    rw [bne_iff_ne]
    rintro rfl
    rw [hnew] at hother
    cases hother
  rw [document?_of_unmarked (Codec.unmarked_line hkey d _), statements?_line hd hkey hends hend hle,
    hsts]
  have hbehind := carryOut_behind hes hapart
  rw [List.append_nil] at hbehind
  exact (carryOut_new rfl _).trans hbehind

/-! ## Spelling -/

/-- A small letter stays as it is. -/
theorem spelled_of_isLower {c : Char} (h : c.isLower = true) : spelled c = [c] := by
  have hlow : 97 ≤ c.val.toNat := by
    rw [Char.isLower, Bool.and_eq_true, decide_eq_true_iff] at h
    exact UInt32.le_iff_toNat_le.mp h.1
  refine if_neg ?_
  rw [Char.isUpper, decide_eq_true_iff]
  rintro ⟨-, hupper⟩
  have hhigh : c.val.toNat ≤ 90 := UInt32.le_iff_toNat_le.mp hupper
  omega

/-- The letters of a word behind its capital stay as they are. -/
theorem flatMap_spelled {w : Char × List Char} (h : Codec.isCapitalised w = true) :
    w.2.flatMap spelled = w.2 := by
  rw [Codec.isCapitalised, Bool.and_eq_true, List.all_eq_true] at h
  rw [List.flatMap_congr fun c hc => spelled_of_isLower (h.2 c hc), List.flatMap_singleton']

/-- The parts behind the first follow the sign between them. -/
theorem intercalate_cons (sep part : List Char) (parts : List (List Char)) :
    sep.intercalate (part :: parts) = part ++ parts.flatMap (sep ++ ·) := by
  induction parts generalizing part with
  | nil => rw [List.intercalate_singleton, List.flatMap_nil, List.append_nil]
  | cons part' parts ih =>
      rw [List.intercalate_cons_cons, ih, List.flatMap_cons]
      simp only [List.append_assoc]

section Words

variable {words : List (Char × List Char)} (h : ∀ w ∈ words, Codec.isCapitalised w = true)
include h

/-- Every word gets an underscore in front of it. -/
theorem flatMap_spelled_words :
    (words.flatMap fun w => w.1 :: w.2).flatMap spelled
      = words.flatMap fun w => '_' :: w.1.toLower :: w.2 := by
  rw [List.flatMap_assoc]
  refine List.flatMap_congr fun w hw => ?_
  have hupper : w.1.isUpper = true := (Bool.and_eq_true_iff.mp (h w hw)).1
  rw [List.flatMap_cons, flatMap_spelled (h w hw), spelled, if_pos hupper]
  rfl

/-- The underscore in front of the first word is left out. -/
theorem snakeCase_words :
    snakeCase (String.ofList (words.flatMap fun w => w.1 :: w.2))
      = String.ofList (['_'].intercalate (words.map fun w => w.1.toLower :: w.2)) := by
  rw [snakeCase, String.toList_ofList]
  cases words with
  | nil => rfl
  | cons w words =>
      obtain ⟨hw, hwords⟩ := List.forall_mem_cons.mp h
      rw [List.flatMap_cons, List.cons_append]
      show String.ofList (w.1.toLower :: (w.2 ++ _).flatMap spelled) = _
      rw [List.flatMap_append, flatMap_spelled hw, flatMap_spelled_words hwords, List.map_cons,
        intercalate_cons, List.flatMap_map]
      rfl

end Words

/-! ## The laws -/

/-- A field is read from a table as the codec reads values. -/
theorem fieldOf?_codec (es : Entries) : codec.fieldOf? es = fieldOf? es := by
  funext f
  rw [fieldOf?, Codec.fieldOf?]
  have hget : codec.get? es f.name = Entries.get? es f.name.toList := rfl
  rw [hget]
  cases Entries.get? es f.name.toList <;> rfl

/-- What the codec does is what is relied on. -/
theorem codec_lawful : codec.Lawful where
  table?_empty := ⟨[], by cbv, fun _ => rfl⟩
  table?_remark hr hb ht h := document?_remark hr hb ht h
  table?_line {key d r b t es} hkey hd hr hb ht h hnew := by
    refine ⟨_, document?_line hkey hd hr hb ht h hnew, ?_, fun other hother => ?_⟩
    · show List.lookup key.toList ((key.toList, codec.item d) :: es) = _
      rw [List.lookup_cons, beq_self_eq_true]
    · have hne : (other.toList == key.toList) = false := by
        rw [beq_eq_false_iff_ne]
        exact fun heq => hother (String.toList_inj.mp heq)
      show List.lookup other.toList ((key.toList, codec.item d) :: es) = _
      rw [List.lookup_cons, hne]
      rfl
  datum?_word n h := by
    have hrange : 0 ≤ (n : Int) ∧ (n : Int) ≤ 0xffffffffffffffff := by omega
    show ((wordOf? (.integer n)).map Datum.word : Option Datum) = _
    rw [wordOf?, if_pos hrange, Int.toNat_natCast]
    rfl
  datum?_name names s h := by
    have hmem : names.contains s = true := List.contains_iff_mem.mpr h
    show (((nameOf? (.string s.toList)).filter names.contains).map Datum.name : Option Datum) = _
    rw [nameOf?, String.ofList_toList, Option.filter_some_pos hmem]
    rfl
  snakeCase_words _ h := snakeCase_words h
  read?_eq {fields s es} _ h := by
    have hes : document? s = some es := h
    show (document? s).bind (fun es => fields.mapM (fieldOf? es)) = _
    rw [hes, fieldOf?_codec]
    rfl
  write?_eq es _ h := by
    refine if_pos ?_
    rw [List.all_eq_true]
    intro e he
    rw [Bool.and_eq_true]
    exact h e he

end TreeGrammar.Toml
