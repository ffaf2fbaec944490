import Mathlib
import TreeGrammar.Toml.Document

/-! # Tables of TOML — one key at a time

    Whatever a statement does further down, in the table of the document it reads and
    writes a single key.  So statements never see the other keys of the document: they
    do the same behind entries with other keys, and keep these as they are. -/

namespace TreeGrammar.Toml

/-! ## Entries -/

namespace Entries

variable {before es : Entries} {key : List Char}

/-- No key of the first entries is one of the others'. -/
def Apart (before es : Entries) : Prop :=
  ∀ key, (get? es key).isSome = true → get? before key = none

/-- Of two lists of entries, the first that has the key gives its value. -/
theorem get?_append (before es : Entries) (key : List Char) :
    get? (before ++ es) key = (get? before key).or (get? es key) :=
  List.lookup_append

theorem get?_append_of_none (h : get? before key = none) : get? (before ++ es) key = get? es key := by
  rw [get?_append, h, Option.none_or]

/-- An entry that is overwritten keeps its key, so a key has a value as before. -/
theorem isSome_get?_map (es : Entries) (key other : List Char) (item : Item) :
    (get? (es.map fun e => if e.1 == key then (key, item) else e) other).isSome
      = (get? es other).isSome := by
  induction es with
  | nil => rfl
  | cons e es ih =>
      obtain ⟨k, v⟩ := e
      rw [List.map_cons]
      by_cases hk : k = key
      · subst hk
        simp only [get?, beq_self_eq_true, if_true, List.lookup_cons] at ih ⊢
        cases other == k
        · exact ih
        · rfl
      · have hne : (k == key) = false := beq_eq_false_iff_ne.mpr hk
        simp only [get?, hne, Bool.false_eq_true, if_false, List.lookup_cons] at ih ⊢
        cases other == k
        · exact ih
        · rfl

/-- A key that is put has a value, and no key loses its own. -/
theorem isSome_get?_put (es : Entries) (key other : List Char) (item : Item) :
    (get? (put es key item) other).isSome = ((get? es other).isSome || other == key) := by
  rw [put]
  split
  · next hkey =>
      rw [isSome_get?_map]
      by_cases heq : other = key
      · rw [heq, hkey, Bool.true_or]
      · rw [beq_eq_false_iff_ne.mpr heq, Bool.or_false]
  · rw [get?_append, Option.isSome_or, get?, get?, List.lookup_cons]
    cases other == key <;> rfl

/-- A key is put behind entries without it. -/
theorem put_append (h : get? before key = none) (item : Item) :
    put (before ++ es) key item = before ++ put es key item := by
  have hkeep : before.map (fun e => if e.1 == key then (key, item) else e) = before := by
    refine (List.map_congr_left fun e he => ?_).trans (List.map_id before)
    have hne : (key != e.1) = true := List.lookup_eq_none_iff.mp h e he
    rw [if_neg]
    · rfl
    · rw [beq_iff_eq]
      exact (bne_iff_ne.mp hne).symm
  rw [put, put, get?_append_of_none h, List.map_append, hkeep]
  split
  · rfl
  · exact List.append_assoc ..

end Entries

/-! ## Changes of one key -/

/-- The change that reads and writes one key. -/
def atKey (key : List Char) (update : Origin → Option Item → Option (Origin × Item)) : Change :=
  fun origin es => (update origin (Entries.get? es key)).map (Prod.map id (Entries.put es key))

/-- The change reads and writes one key. -/
def AtKey (change : Change) : Prop :=
  ∃ key update, change = atKey key update

section AtKey

variable {change : Change} {origin origin' : Origin} {before es es' : Entries}

/-- A change of one key takes away none. -/
theorem AtKey.keeps (hchange : AtKey change) (h : change origin es = some (origin', es'))
    {key : List Char} (hkey : (Entries.get? es key).isSome = true) :
    (Entries.get? es' key).isSome = true := by
  obtain ⟨k, update, rfl⟩ := hchange
  obtain ⟨⟨o, item⟩, -, he⟩ := Option.map_eq_some_iff.mp h
  cases he
  show (Entries.get? (Entries.put es k item) key).isSome = true
  rw [Entries.isSome_get?_put, hkey, Bool.true_or]

/-- Entries with other keys are in front of what comes out as they were in front of what came in. -/
theorem AtKey.behind (hchange : AtKey change) (h : change origin es = some (origin', es'))
    (hbefore : Entries.Apart before es') :
    change origin (before ++ es) = some (origin', before ++ es') := by
  obtain ⟨key, update, rfl⟩ := hchange
  obtain ⟨⟨o, item⟩, hitem, he⟩ := Option.map_eq_some_iff.mp h
  cases he
  -- the key is written, so it is a key of what comes out
  have hkey : Entries.get? before key = none := by
    refine hbefore key ?_
    show (Entries.get? (Entries.put es key item) key).isSome = true
    rw [Entries.isSome_get?_put, beq_self_eq_true, Bool.or_true]
  rw [atKey, Entries.get?_append_of_none hkey, hitem]
  show some (o, Entries.put (before ++ es) key item) = some (o, before ++ Entries.put es key item)
  rw [Entries.put_append hkey]

end AtKey

/-- What is made of the value of a path's first key. -/
def updateAt (viaDots : Bool) (path : List (List Char)) (change : Change) (origin : Origin) :
    Option Item → Option (Origin × Item)
  | none =>
    (changeAt viaDots path change (if viaDots then .dotted else .implied) []).map
      fun r => (origin, .table r.1 r.2)
  | some (.table o sub) =>
    if passable viaDots o then
      (changeAt viaDots path change o sub).map fun r => (origin, .table r.1 r.2)
    else none
  | some (.tables (.table o sub :: others)) =>
    if passable false o then
      (changeAt viaDots path change o sub).map fun r => (origin, .tables (.table r.1 r.2 :: others))
    else none
  | _ => none

/-- A change along a path is one of its first key. -/
theorem changeAt_cons (viaDots : Bool) (key : List Char) (path : List (List Char))
    (change : Change) :
    changeAt viaDots (key :: path) change = atKey key (updateAt viaDots path change) := by
  funext origin es
  rw [changeAt, atKey]
  cases Entries.get? es key with
  | none =>
      rw [updateAt]
      cases changeAt viaDots path change (if viaDots then .dotted else .implied) [] <;> rfl
  | some item =>
      cases item with
      | table o sub =>
          rw [updateAt]
          show (if passable viaDots o = true then _ else none) = _
          split
          · cases changeAt viaDots path change o sub <;> rfl
          · rfl
      | tables items =>
          cases items with
          | nil => rfl
          | cons t others =>
              cases t with
              | table o sub =>
                  rw [updateAt]
                  show (if passable false o = true then _ else none) = _
                  split
                  · cases changeAt viaDots path change o sub <;> rfl
                  · rfl
              | _ => rfl
      | _ => rfl

/-- A path reads and writes its first key, if it has any. -/
theorem atKey_changeAt {change : Change} (h : AtKey change) (viaDots : Bool)
    (path : List (List Char)) : AtKey (changeAt viaDots path change) := by
  cases path with
  | nil => exact h
  | cons key path => exact ⟨key, _, changeAt_cons viaDots key path change⟩

/-- Assigning changes a single key. -/
theorem atKey_assign (path : List (List Char)) (key : List Char) (item : Item) :
    AtKey (assign path key item) := by
  refine atKey_changeAt ⟨key, fun origin item? =>
    if (origin == .dotted) == path.isEmpty then none
    else if item?.isSome then none else some (origin, item), ?_⟩ true path
  funext origin es
  rw [atKey, Entries.add?]
  split
  · rfl
  · split <;> rfl

/-- What is made of the value that a header names. -/
def headed (origin : Origin) : Option Item → Option (Origin × Item)
  | none => some (origin, .table .header [])
  | some (.table .implied sub) => some (origin, .table .header sub)
  | _ => none

/-- Opening a table changes a single key. -/
theorem atKey_openTable (path : List (List Char)) (key : List Char) :
    AtKey (openTable path key) := by
  refine atKey_changeAt ⟨key, headed, ?_⟩ false path
  funext origin es
  rw [atKey]
  cases Entries.get? es key with
  | none => rfl
  | some item =>
      cases item with
      | table o sub => cases o <;> rfl
      | _ => rfl

/-- What is made of the value that a header in double brackets names. -/
def extended (origin : Origin) : Option Item → Option (Origin × Item)
  | none => some (origin, .tables [.table .header []])
  | some (.tables items) => some (origin, .tables (.table .header [] :: items))
  | _ => none

/-- Opening a further table changes a single key. -/
theorem atKey_openElement (path : List (List Char)) (key : List Char) :
    AtKey (openElement path key) := by
  refine atKey_changeAt ⟨key, extended, ?_⟩ false path
  funext origin es
  rw [atKey]
  cases Entries.get? es key with
  | none => rfl
  | some item => cases item <;> rfl

/-! ## Statements -/

namespace Statement

/-- What a statement does with the table of the document, the last header being that of the path. -/
def change (current : List (List Char)) : Statement → Change
  | assign path key item => changeAt false current (Toml.assign path key item)
  | header path key => openTable path key
  | element path key => openElement path key

/-- The path of the last header behind a statement. -/
def next (current : List (List Char)) : Statement → List (List Char)
  | assign _ _ _ => current
  | header path key => path ++ [key]
  | element path key => path ++ [key]

/-- So does every statement. -/
theorem atKey_change (st : Statement) (current : List (List Char)) :
    AtKey (st.change current) := by
  cases st with
  | assign path key item => exact atKey_changeAt (atKey_assign path key item) false current
  | header path key => exact atKey_openTable path key
  | element path key => exact atKey_openElement path key

end Statement

/-- The first statement is carried out, and then the others. -/
theorem carryOut_cons (st : Statement) (rest : List Statement) (current : List (List Char))
    (es : Entries) :
    carryOut (st :: rest) current es
      = (st.change current .header es).bind fun r => carryOut rest (st.next current) r.2 := by
  cases st <;> rfl

section CarryOut

variable {sts : List Statement} {current : List (List Char)} {before es es' : Entries}

/-- No key of the document loses its value. -/
theorem carryOut_keeps (h : carryOut sts current es = some es') {key : List Char}
    (hkey : (Entries.get? es key).isSome = true) : (Entries.get? es' key).isSome = true := by
  induction sts generalizing current es with
  | nil =>
      cases h
      exact hkey
  | cons st sts ih =>
      rw [carryOut_cons] at h
      obtain ⟨⟨o, es₁⟩, hchange, hrest⟩ := Option.bind_eq_some_iff.mp h
      exact ih hrest ((st.atKey_change current).keeps hchange hkey)

/-- Statements do behind entries with other keys what they do without them. -/
theorem carryOut_behind (h : carryOut sts current es = some es')
    (hbefore : Entries.Apart before es') :
    carryOut sts current (before ++ es) = some (before ++ es') := by
  induction sts generalizing current es with
  | nil =>
      cases h
      rfl
  | cons st sts ih =>
      rw [carryOut_cons] at h ⊢
      obtain ⟨⟨o, es₁⟩, hchange, hrest⟩ := Option.bind_eq_some_iff.mp h
      -- keys only get more, so those of the table in between are foreign as well
      have hapart : Entries.Apart before es₁ := by
        intro key hkey
        exact hbefore key (carryOut_keeps hrest hkey)
      rw [(st.atKey_change current).behind hchange hapart]
      exact ih hrest

/-- In front of all headers, a new key is an entry of the document. -/
theorem carryOut_new {key : List Char} (h : Entries.get? es key = none) (item : Item) :
    carryOut (.assign [] key item :: sts) [] es = carryOut sts [] (es ++ [(key, item)]) := by
  have hchange : (Statement.assign [] key item).change [] .header es
      = some (.header, es ++ [(key, item)]) := by
    show (Entries.add? es key item).map _ = _
    rw [Entries.add?, h, Entries.put, h]
    rfl
  rw [carryOut_cons, hchange]
  rfl

end CarryOut

end TreeGrammar.Toml
