import Mathlib.Data.Nat.Find
import TreeGrammar.Proofs.Verdict

/-! # Visits — which items are tested, and what that decides

    A search and the two quantifiers test items in order up to the first whose outcome
    is not the one that lets them go on.  `EndsAt` says which place that is without any
    of the three: only the outcomes of the items are looked at, each with the items
    before it tested.  A test may fail, and it may remember what it was asked before.
    All that is visited, and all that is answered, is read off that one place. -/

namespace TreeGrammar.Verdict

variable {α β ε : Type}

/-- A test that also notes which items it was asked about, the last one first. -/
def noting (test : α → Except ε Bool) (x : α) : ExceptT ε (StateM (List α)) Bool := do
  modify (x :: ·)
  match test x with
  | .ok b => pure b
  | .error e => throw e

/-- Runs a computation over noted tests: its outcome, and the items tested in order. -/
def tested (c : ExceptT ε (StateM (List α)) β) : Except ε β × List α :=
  let (outcome, seen) := c.run.run []
  (outcome, seen.reverse)

/-- A test that notes its items, and whose outcome may depend on those it has noted. -/
def remembering (p : List α → α → Except ε Bool) (x : α) : ExceptT ε (StateM (List α)) Bool := do
  let seen ← get
  noting (p seen.reverse) x

/-- A test without memory only notes. -/
example (p : α → Except ε Bool) : remembering (fun _ => p) = noting p := rfl

section Places

variable (p : List α → α → Except ε Bool) (items : List α)

/-- The outcome of the item at a place, all items before it tested. -/
def outcome? (i : Nat) : Option (Except ε Bool) :=
  items[i]?.map (p (items.take i))

/-- The first place whose outcome is not `goOn`; that is the end if there is none. -/
structure EndsAt (goOn : Bool) (k : Nat) : Prop where
  before : ∀ i < k, outcome? p items i = some (.ok goOn)
  here : outcome? p items k ≠ some (.ok goOn)

/-- What a search that ends at a place has found: the item there, or the failure of its test. -/
def foundAt (k : Nat) : Except ε (Option (Nat × α)) :=
  match items[k]? with
  | some a => (p (items.take k) a).map fun _ => some (k, a)
  | none => .ok none

end Places

section Runs

variable {p : List α → α → Except ε Bool} {items : List α} {k : Nat}

/-- Every search ends somewhere. -/
theorem exists_endsAt (p : List α → α → Except ε Bool) (items : List α) (goOn : Bool) :
    ∃ k, EndsAt p items goOn k := by
  classical
  have hend : ∃ k, outcome? p items k ≠ some (.ok goOn) := by
    refine ⟨items.length, ?_⟩
    rw [outcome?, List.getElem?_eq_none (Nat.le_refl _)]
    exact nofun
  exact ⟨Nat.find hend, fun i hi => not_not.mp (Nat.find_min hend hi), Nat.find_spec hend⟩

/-- One test notes one item, and sees those noted before. -/
theorem run_remembering (p : List α → α → Except ε Bool) (x : α) (seen : List α) :
    (remembering p x).run.run seen = (p seen.reverse x, x :: seen) := by
  show (noting (p seen.reverse) x).run.run seen = _
  rw [noting]
  cases p seen.reverse x <;> rfl

theorem run_bind_of_ok {γ : Type} {c : ExceptT ε (StateM (List α)) β} {seen seen' : List α} {b : β}
    (h : c.run.run seen = (.ok b, seen')) (f : β → ExceptT ε (StateM (List α)) γ) :
    (c >>= f).run.run seen = (f b).run.run seen' := by
  rw [ExceptT.run_bind, StateT.run_bind, h]
  rfl

theorem run_bind_of_error {γ : Type} {c : ExceptT ε (StateM (List α)) β} {seen seen' : List α}
    {e : ε} (h : c.run.run seen = (.error e, seen')) (f : β → ExceptT ε (StateM (List α)) γ) :
    (c >>= f).run.run seen = (.error e, seen') := by
  rw [ExceptT.run_bind, StateT.run_bind, h]
  rfl

/-- A search that stands at the first of the remaining items, all before it tested, ends at the
place and has visited what lies up to it. -/
theorem run_firstFrom {done rest : List α} (h : EndsAt p (done ++ rest) false k)
    (hle : done.length ≤ k) :
    (firstFrom done.length (remembering p) rest).run.run done.reverse
      = (foundAt p (done ++ rest) k, ((done ++ rest).take (k + 1)).reverse) := by
  induction rest generalizing done with
  | nil =>
      rw [List.append_nil, foundAt, List.getElem?_eq_none hle,
        List.take_of_length_le (Nat.le_succ_of_le hle)]
      rfl
  | cons a rest ih =>
      have htake : (done ++ a :: rest).take done.length = done := List.take_left
      have hget : (done ++ a :: rest)[done.length]? = some a := by
        rw [List.getElem?_append_right (Nat.le_refl _), Nat.sub_self]
        rfl
      have hhere : outcome? p (done ++ a :: rest) done.length = some (p done a) := by
        rw [outcome?, hget, htake]
        rfl
      have hvisited : ((done ++ a :: rest).take (done.length + 1)).reverse = a :: done.reverse := by
        rw [List.take_length_add_append, List.reverse_append]
        rfl
      have hrun := run_remembering p a done.reverse
      rw [List.reverse_reverse] at hrun
      -- an outcome that ends the search is at the place itself
      have hstop (ho : p done a ≠ .ok false) : k = done.length := by
        refine Nat.le_antisymm (Nat.le_of_not_lt fun hlt => ho ?_) hle
        exact Option.some.inj (hhere.symm.trans (h.before _ hlt))
      rw [firstFrom]
      cases ho : p done a with
      | error e =>
          rw [ho] at hrun
          obtain rfl := hstop (by rw [ho]; simp)
          rw [run_bind_of_error hrun, hvisited, foundAt, hget]
          simp only [htake, ho]
          rfl
      | ok passed =>
          rw [ho] at hrun
          rw [run_bind_of_ok hrun]
          cases passed with
          | true =>
              obtain rfl := hstop (by rw [ho]; simp)
              rw [hvisited, foundAt, hget]
              simp only [htake, ho]
              rfl
          | false =>
              have hne : done.length ≠ k := by
                rintro rfl
                exact h.here (hhere.trans (congrArg some ho))
              have hlt : (done ++ [a]).length ≤ k := by
                rw [List.length_append, List.length_singleton]
                omega
              have hrest : EndsAt p (done ++ [a] ++ rest) false k := by rwa [← List.append_cons]
              have hnext := ih hrest hlt
              rw [List.length_append, List.length_singleton, List.reverse_append,
                ← List.append_cons] at hnext
              exact hnext

/-- A search visits the items up to the place where it ends, and finds what is there. -/
theorem tested_first (h : EndsAt p items false k) :
    tested (first (remembering p) items) = (foundAt p items k, items.take (k + 1)) := by
  have hall : EndsAt p ([] ++ items) false k := h
  have hrun := run_firstFrom hall (Nat.zero_le k)
  show (((firstFrom 0 (remembering p) items).run.run []).1,
    ((firstFrom 0 (remembering p) items).run.run []).2.reverse) = _
  rw [List.length_nil, List.reverse_nil, List.nil_append] at hrun
  rw [hrun, List.reverse_reverse]

/-- What is made of an outcome tests nothing. -/
theorem tested_map {γ : Type} (f : β → γ) (c : ExceptT ε (StateM (List α)) β) :
    tested (f <$> c) = ((tested c).1.map f, (tested c).2) := by
  rw [← bind_pure_comp, tested, tested]
  match h : c.run.run [] with
  | (.ok b, seen) =>
      rw [run_bind_of_ok h]
      rfl
  | (.error e, seen) =>
      rw [run_bind_of_error h]
      rfl

/-- The item that a search finds has passed. -/
theorem foundAt_isSome (h : EndsAt p items false k) :
    (foundAt p items k).map Option.isSome = (outcome? p items k).getD (.ok false) := by
  have hhere := h.here
  rw [outcome?] at hhere ⊢
  rw [foundAt]
  match hk : items[k]? with
  | none => rfl
  | some a =>
      rw [hk] at hhere
      show ((p (items.take k) a).map _).map _ = p (items.take k) a
      match ho : p (items.take k) a with
      | .error e => rfl
      | .ok true => rfl
      | .ok false => exact absurd (congrArg some ho) hhere

/-- The existential quantifier visits the same items, and passes if the last one does. -/
theorem tested_anyM (h : EndsAt p items false k) :
    tested (items.anyM (remembering p))
      = ((outcome? p items k).getD (.ok false), items.take (k + 1)) := by
  rw [← isSome_first, tested_map, tested_first h, foundAt_isSome h]

end Runs

/-! ## The opposite test -/

section Opposite

variable {p : List α → α → Except ε Bool} {items : List α} {k : Nat}

/-- The test that is passed where the other is not. -/
def opposite (p : List α → α → Except ε Bool) (seen : List α) (x : α) : Except ε Bool :=
  negate (p seen x)

/-- The opposite of a test remembers the same items. -/
theorem negate_remembering (p : List α → α → Except ε Bool) (x : α) :
    negate (remembering p x) = remembering (opposite p) x := by
  refine ExceptT.ext (StateT.ext fun seen => ?_)
  have hrun := run_remembering p x seen
  have hopposite : (remembering (opposite p) x).run.run seen
      = (negate (p seen.reverse x), x :: seen) := run_remembering (opposite p) x seen
  rw [negate, ← bind_pure_comp]
  cases ho : p seen.reverse x with
  | error e =>
      rw [ho] at hrun hopposite
      exact (run_bind_of_error hrun _).trans hopposite.symm
  | ok b =>
      rw [ho] at hrun hopposite
      exact (run_bind_of_ok hrun _).trans hopposite.symm

/-- At every place the outcome is the opposite. -/
theorem outcome?_opposite (p : List α → α → Except ε Bool) (items : List α) (i : Nat) :
    outcome? (opposite p) items i = (outcome? p items i).map negate := by
  rw [outcome?, outcome?, Option.map_map]
  rfl

theorem negate_eq_ok_iff {o : Except ε Bool} {b : Bool} : negate o = .ok b ↔ o = .ok (!b) := by
  cases o with
  | error e => exact ⟨nofun, nofun⟩
  | ok c => cases b <;> cases c <;> simp [negate]

/-- A search for a rejected item ends where that for a passed one does under the opposite test. -/
theorem endsAt_opposite (h : EndsAt p items true k) : EndsAt (opposite p) items false k := by
  constructor
  · intro i hi
    rw [outcome?_opposite, h.before i hi]
    rfl
  · rw [outcome?_opposite]
    intro ho
    obtain ⟨o, ho, hnegate⟩ := Option.map_eq_some_iff.mp ho
    exact h.here (ho.trans (congrArg some (negate_eq_ok_iff.mp hnegate)))

/-- The universal quantifier visits the items up to the first that is rejected. -/
theorem tested_allM (h : EndsAt p items true k) :
    tested (items.allM (remembering p))
      = ((outcome? p items k).getD (.ok true), items.take (k + 1)) := by
  have hopposite : items.allM (remembering p) = negate (items.anyM (remembering (opposite p))) := by
    rw [← negate_negate (items.allM (remembering p)), negate_allM]
    simp only [negate_remembering]
  rw [hopposite, negate, tested_map, tested_anyM (endsAt_opposite h), outcome?_opposite]
  rcases outcome? p items k with _ | e | b
  · rfl
  · rfl
  · cases b <;> rfl

end Opposite

/-! ## The combinators side by side -/

/-- What is tested and answered, given the first place `k` that does not let a search go on and the
first place `j` that does not let the universal quantifier go on. -/
structure Agree (p : List α → α → Except ε Bool) (items : List α) (k j : Nat) : Prop where
  /-- The items up to the place are tested, in order and each once, and no others. -/
  search : tested (first (remembering p) items) = (foundAt p items k, items.take (k + 1))
  any : tested (items.anyM (remembering p))
    = ((outcome? p items k).getD (.ok false), items.take (k + 1))
  all : tested (items.allM (remembering p))
    = ((outcome? p items j).getD (.ok true), items.take (j + 1))
  /-- An item passes if and only if the search finds one. -/
  passes : (tested (items.anyM (remembering p))).1 = .ok true
    ↔ ∃ i a, (tested (first (remembering p) items)).1 = .ok (some (i, a))
  /-- What is found is the item at the place. -/
  found : ∀ i a, (tested (first (remembering p) items)).1 = .ok (some (i, a)) →
    i = k ∧ items[k]? = some a ∧ outcome? p items k = some (.ok true)
  /-- The only failure is that of the item at the place, and it is never passed over. -/
  searchFails : ∀ e, (tested (first (remembering p) items)).1 = .error e
    ↔ outcome? p items k = some (.error e)
  anyFails : ∀ e, (tested (items.anyM (remembering p))).1 = .error e
    ↔ outcome? p items k = some (.error e)
  allFails : ∀ e, (tested (items.allM (remembering p))).1 = .error e
    ↔ outcome? p items j = some (.error e)
  /-- Not any is all not, with the same items tested. -/
  negated : tested (negate (items.anyM (remembering p)))
    = tested (items.allM fun x => negate (remembering p x))

section Agreement

variable {p : List α → α → Except ε Bool} {items : List α} {k : Nat}

/-- What is found stands at the place where the search ends. -/
theorem foundAt_eq_some {i : Nat} {a : α} (h : EndsAt p items false k)
    (hfound : foundAt p items k = .ok (some (i, a))) :
    i = k ∧ items[k]? = some a ∧ outcome? p items k = some (.ok true) := by
  have hpasses := foundAt_isSome h
  rw [hfound] at hpasses
  rw [foundAt] at hfound
  match hk : items[k]? with
  | none =>
      rw [hk] at hfound
      cases hfound
  | some c =>
      rw [hk] at hfound
      have hhere : outcome? p items k = some (p (items.take k) c) := by
        rw [outcome?, hk]
        rfl
      rw [hhere] at hpasses ⊢
      cases ho : p (items.take k) c with
      | error e =>
          simp only [ho] at hfound
          cases hfound
      | ok b =>
          simp only [ho] at hfound
          cases hfound
          rw [ho] at hpasses
          exact ⟨rfl, rfl, congrArg some hpasses.symm⟩

/-- The existential quantifier passes if the search finds something. -/
theorem passes_iff (h : EndsAt p items false k) :
    (outcome? p items k).getD (.ok false) = .ok true
      ↔ ∃ i a, foundAt p items k = .ok (some (i, a)) := by
  rw [← foundAt_isSome h]
  match foundAt p items k with
  | .error e => exact ⟨nofun, nofun⟩
  | .ok none => exact ⟨nofun, nofun⟩
  | .ok (some (i, a)) => exact ⟨fun _ => ⟨i, a, rfl⟩, fun _ => rfl⟩

/-- A search fails if the test of the last item visited does. -/
theorem foundAt_eq_error {e : ε} :
    foundAt p items k = .error e ↔ outcome? p items k = some (.error e) := by
  rw [foundAt, outcome?]
  match items[k]? with
  | none => exact ⟨nofun, nofun⟩
  | some a =>
      show (p (items.take k) a).map _ = _ ↔ some (p (items.take k) a) = _
      cases p (items.take k) a with
      | error e' => simp [Except.map]
      | ok b => exact ⟨nofun, nofun⟩

theorem getD_eq_error {o? : Option (Except ε Bool)} {b : Bool} {e : ε} :
    o?.getD (.ok b) = .error e ↔ o? = some (.error e) := by
  cases o? with
  | none => exact ⟨nofun, nofun⟩
  | some o => exact (Option.some_inj).symm

/-- On any items, and for any test that may fail and may depend on what was tested before, a search
and both quantifiers visit the items up to one place, and all they answer is decided there. -/
theorem combinators_agree (p : List α → α → Except ε Bool) (items : List α) :
    ∃ k j, EndsAt p items false k ∧ EndsAt p items true j ∧ Agree p items k j := by
  obtain ⟨k, hk⟩ := exists_endsAt p items false
  obtain ⟨j, hj⟩ := exists_endsAt p items true
  have hsearch := tested_first hk
  have hany := tested_anyM hk
  have hall := tested_allM hj
  refine ⟨k, j, hk, hj, hsearch, hany, hall, ?_, ?_, ?_, ?_, ?_, ?_⟩
  · rw [hany, hsearch]
    exact passes_iff hk
  · intro i a h
    rw [hsearch] at h
    exact foundAt_eq_some hk h
  · intro e
    rw [hsearch]
    exact foundAt_eq_error
  · intro e
    rw [hany]
    exact getD_eq_error
  · intro e
    rw [hall]
    exact getD_eq_error
  · rw [negate_anyM]

end Agreement

/-- A test that an item passes when it is seen again. -/
example : tested (first (remembering fun seen n => .ok (seen.contains n)) [1, 2, 1, 3])
    = ((.ok (some (2, 1)) : Except String _), [1, 2, 1]) := rfl

end TreeGrammar.Verdict
