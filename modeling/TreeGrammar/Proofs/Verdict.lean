import TreeGrammar.Verdict

/-! # First item and quantifiers

    `Verdict.first` makes the tests of `List.anyM` and tells where they ended, so the
    one is the other with the place forgotten.  Lists one behind the other are tested one
    after the other, and to go on with the first item that passes is to attempt each in
    turn.  The two quantifiers are each other's opposite.  What is tested or computed of
    the items of a list depends on these items only, and where nothing cuts it short, on
    each. -/

namespace TreeGrammar.Verdict

variable {m : Type → Type} [Monad m] [LawfulMonad m] {α ε : Type}

/-- An item passes if there is a first one that does. -/
theorem isSome_firstFrom (p : α → m Bool) (l : List α) :
    ∀ start, Option.isSome <$> firstFrom start p l = l.anyM p := by
  induction l with
  | nil =>
      intro start
      rw [firstFrom, List.anyM, map_pure]
      rfl
  | cons a l ih =>
      intro start
      rw [firstFrom, List.anyM, map_bind]
      congr 1
      funext b
      cases b with
      | true => exact map_pure _ _
      | false => exact ih (start + 1)

/-- A search finds something if some item passes. -/
theorem isSome_first (p : α → m Bool) (l : List α) :
    Option.isSome <$> first p l = l.anyM p :=
  isSome_firstFrom p l 0

/-- Items that are made from others are tested as those are. -/
theorem firstFrom_map {β : Type} (p : β → m Bool) (f : α → β) (l : List α) :
    ∀ start, firstFrom start p (l.map f)
      = Option.map (Prod.map id f) <$> firstFrom start (fun a => p (f a)) l := by
  induction l with
  | nil =>
      intro start
      rw [List.map_nil, firstFrom, firstFrom, map_pure]
      rfl
  | cons a l ih =>
      intro start
      rw [List.map_cons, firstFrom, firstFrom, map_bind]
      congr 1
      funext b
      cases b with
      | true => exact (map_pure (Option.map (Prod.map id f)) (some (start, a))).symm
      | false => exact ih (start + 1)

omit [LawfulMonad m] in
theorem allM_map {β : Type} (p : β → m Bool) (f : α → β) (l : List α) :
    (l.map f).allM p = l.allM fun a => p (f a) := by
  induction l with
  | nil => rfl
  | cons a l ih => rw [List.map_cons, List.allM, List.allM, ih]

omit [LawfulMonad m] in
theorem anyM_map {β : Type} (p : β → m Bool) (f : α → β) (l : List α) :
    (l.map f).anyM p = l.anyM fun a => p (f a) := by
  induction l with
  | nil => rfl
  | cons a l ih => rw [List.map_cons, List.anyM, List.anyM, ih]

/-! ## Lists one behind the other -/

/-- A second list is tested only if all of the first pass. -/
theorem allM_append (p : α → m Bool) (l l' : List α) :
    (l ++ l').allM p = l.allM p >>= fun b => if b then l'.allM p else pure false := by
  induction l with
  | nil =>
      rw [List.allM, pure_bind]
      rfl
  | cons a l ih =>
      rw [List.cons_append, List.allM, List.allM, bind_assoc, ih]
      congr 1
      funext b
      cases b with
      | true => rfl
      | false => exact (pure_bind false fun b => if b then l'.allM p else pure false).symm

/-- A second list is tested only if none of the first passes. -/
theorem anyM_append (p : α → m Bool) (l l' : List α) :
    (l ++ l').anyM p = l.anyM p >>= fun b => if b then pure true else l'.anyM p := by
  induction l with
  | nil =>
      rw [List.anyM, pure_bind]
      rfl
  | cons a l ih =>
      rw [List.cons_append, List.anyM, List.anyM, bind_assoc, ih]
      congr 1
      funext b
      cases b with
      | true => exact (pure_bind true fun b => if b then pure true else l'.anyM p).symm
      | false => rfl

theorem allM_singleton (p : α → m Bool) (a : α) : [a].allM p = p a := by
  rw [List.allM]
  conv => rhs; rw [← bind_pure (p a)]
  congr 1
  funext b
  cases b <;> rfl

theorem anyM_singleton (p : α → m Bool) (a : α) : [a].anyM p = p a := by
  rw [List.anyM]
  conv => rhs; rw [← bind_pure (p a)]
  congr 1
  funext b
  cases b <;> rfl

/-! ## What is done with the first item -/

/-- Goes on with an item that passes the test, and otherwise with something else. -/
def attempt {β : Type} (test : α → m Bool) (next : α → m β) (a : α) (otherwise : m β) : m β := do
  if ← test a then next a else otherwise

/-- To go on with the first item that passes is to attempt one after the other. -/
theorem firstFrom_bind_eq_foldr {β : Type} (p : α → m Bool) {next : α → m β}
    {k : Option (Nat × α) → m β} (hk : ∀ i a, k (some (i, a)) = next a) (l : List α) :
    ∀ start, firstFrom start p l >>= k = l.foldr (attempt p next) (k none) := by
  induction l with
  | nil =>
      intro start
      exact pure_bind none k
  | cons a l ih =>
      intro start
      rw [firstFrom, List.foldr_cons, attempt, bind_assoc]
      congr 1
      funext b
      cases b with
      | true => exact (pure_bind (some (start, a)) k).trans (hk start a)
      | false => exact ih (start + 1)

/-- To ask whether any item passes before going on with the first that does is to ask no more than
once: the same tests have the same outcomes. -/
theorem anyM_bind_foldr {β : Type} (p : α → Except ε Bool) (next : α → Except ε β)
    (otherwise otherwise' : Except ε β) (l : List α) :
    (l.anyM p >>= fun b => if b then l.foldr (attempt p next) otherwise else otherwise')
      = l.foldr (attempt p next) otherwise' := by
  induction l with
  | nil => rfl
  | cons a l ih =>
      rw [List.anyM, List.foldr_cons, List.foldr_cons, attempt, attempt]
      match hp : p a with
      | .error e => rfl
      | .ok true => rfl
      | .ok false => exact ih

/-! ## Negation -/

/-- Two opposites cancel out. -/
theorem negate_negate (verdict : m Bool) : negate (negate verdict) = verdict := by
  rw [negate, negate, ← comp_map]
  have hnot : (!·) ∘ (!·) = (id : Bool → Bool) := funext Bool.not_not
  rw [hnot, id_map]

/-- Not all items pass if one passes the opposite test; the tests are made in the same order, up to
the same one, and fail in the same way. -/
theorem negate_allM (p : α → m Bool) (l : List α) :
    negate (l.allM p) = l.anyM fun a => negate (p a) := by
  rw [List.allM_eq_not_anyM_not]
  exact negate_negate _

/-- No item passes if all are rejected. -/
theorem negate_anyM (p : α → m Bool) (l : List α) :
    negate (l.anyM p) = l.allM fun a => negate (p a) := by
  calc negate (l.anyM p)
      = negate (l.anyM fun a => negate (negate (p a))) := by simp only [negate_negate]
    _ = negate (negate (l.allM fun a => negate (p a))) := by rw [negate_allM]
    _ = l.allM fun a => negate (p a) := negate_negate _

/-! ## Where the first item stands -/

section Places

variable {p : α → Except ε Bool} {l l' : List α}

/-- The first item passes, and those before it do not. -/
theorem of_firstFrom_eq_some {start i : Nat} {a : α}
    (h : firstFrom start p l = .ok (some (i, a))) :
    ∃ k, i = start + k ∧ l[k]? = some a ∧ p a = .ok true
      ∧ ∀ j b, j < k → l[j]? = some b → p b = .ok false := by
  induction l generalizing start with
  | nil => cases h
  | cons x l ih =>
      rw [firstFrom] at h
      match hx : p x with
      | .error e =>
          rw [hx] at h
          cases h
      | .ok true =>
          rw [hx] at h
          cases h
          exact ⟨0, rfl, rfl, hx, fun j b hj => absurd hj (Nat.not_lt_zero j)⟩
      | .ok false =>
          rw [hx] at h
          obtain ⟨k, rfl, hk, ha, hbefore⟩ := ih h
          refine ⟨k + 1, by omega, hk, ha, ?_⟩
          intro j b hj hb
          cases j with
          | zero =>
              cases hb
              exact hx
          | succ j => exact hbefore j b (Nat.lt_of_succ_lt_succ hj) hb

/-- The search needs no more than the items up to the one it finds. -/
theorem firstFrom_take {start k : Nat} {a : α}
    (h : firstFrom start p l = .ok (some (start + k, a))) :
    firstFrom start p (l.take (k + 1)) = .ok (some (start + k, a)) := by
  induction l generalizing start k with
  | nil => cases h
  | cons x l ih =>
      rw [firstFrom] at h
      rw [List.take_succ_cons, firstFrom]
      match hx : p x with
      | .error e =>
          rw [hx] at h
          cases h
      | .ok true =>
          rw [hx] at h
          exact h
      | .ok false =>
          rw [hx] at h
          obtain ⟨k', hk', -⟩ := of_firstFrom_eq_some h
          obtain rfl : k = k' + 1 := by omega
          have hnext : start + (k' + 1) = start + 1 + k' := by omega
          rw [hnext] at h ⊢
          exact ih h

/-- What a search finds passes, and everything before it is rejected. -/
theorem of_first_eq_some {i : Nat} {a : α} (h : first p l = .ok (some (i, a))) :
    l[i]? = some a ∧ p a = .ok true ∧ ∀ j b, j < i → l[j]? = some b → p b = .ok false := by
  obtain ⟨k, hk, hplace⟩ := of_firstFrom_eq_some h
  obtain rfl : i = k := by omega
  exact hplace

/-- If any item passes, there is a first one. -/
theorem exists_first_of_anyM (h : l.anyM p = .ok true) :
    ∃ i a, first p l = .ok (some (i, a)) ∧ a ∈ l ∧ p a = .ok true := by
  rw [← isSome_first] at h
  match hfirst : first p l with
  | .error e =>
      rw [hfirst] at h
      cases h
  | .ok none =>
      rw [hfirst] at h
      cases h
  | .ok (some (i, a)) =>
      obtain ⟨hplace, ha, -⟩ := of_first_eq_some hfirst
      exact ⟨i, a, rfl, List.mem_of_getElem? hplace, ha⟩

/-- If every item is answered, the search ends at the first whose answer is that it passes. -/
theorem firstFrom_eq_find? {q : α → Bool} (h : ∀ a ∈ l, p a = .ok (q a)) (start : Nat) :
    Option.map Prod.snd <$> firstFrom start p l = .ok (l.find? q) := by
  induction l generalizing start with
  | nil => rfl
  | cons a l ih =>
      rw [firstFrom, h a List.mem_cons_self]
      match hq : q a with
      | true =>
          rw [List.find?_cons_of_pos hq]
          rfl
      | false =>
          rw [List.find?_cons_of_neg (Bool.eq_false_iff.mp hq)]
          exact ih (fun b hb => h b (List.mem_cons_of_mem _ hb)) (start + 1)

/-- Where no test fails, a search is one of the library. -/
theorem first_eq_find? {q : α → Bool} (h : ∀ a ∈ l, p a = .ok (q a)) :
    Option.map Prod.snd <$> first p l = .ok (l.find? q) :=
  firstFrom_eq_find? h 0

/-- What a search finds does not depend on what stands behind it. -/
theorem first_take {i : Nat} {a : α} (h : first p l = .ok (some (i, a))) :
    first p (l.take (i + 1)) = .ok (some (i, a)) := by
  have hplace : firstFrom 0 p l = .ok (some (0 + i, a)) := by rwa [Nat.zero_add]
  rw [first, firstFrom_take hplace, Nat.zero_add]

/-- What follows does not matter if the search ends before it. -/
theorem firstFrom_append {start : Nat} (h : firstFrom start p l ≠ .ok none) :
    firstFrom start p (l ++ l') = firstFrom start p l := by
  induction l generalizing start with
  | nil => exact absurd rfl h
  | cons x l ih =>
      rw [firstFrom] at h
      rw [List.cons_append, firstFrom, firstFrom]
      match hx : p x with
      | .error e => rfl
      | .ok true => rfl
      | .ok false =>
          rw [hx] at h
          exact ih h

end Places

/-! ## Sequences and lists that are gone through to the end -/

section Complete

variable {β : Type} {l : List α}

/-- If the verdict on all items is that they pass, each of them does. -/
theorem of_allM_eq_true {p : α → Except ε Bool} (h : l.allM p = .ok true) :
    ∀ a ∈ l, p a = .ok true := by
  induction l with
  | nil => exact nofun
  | cons a l ih =>
      rw [List.allM] at h
      match ha : p a with
      | .error e =>
          rw [ha] at h
          cases h
      | .ok false =>
          rw [ha] at h
          cases h
      | .ok true =>
          rw [ha] at h
          exact List.forall_mem_cons.mpr ⟨ha, ih h⟩

/-- A list of computations that all succeed gives their values. -/
theorem mapM_eq_ok {f : α → Except ε β} {q : α → β} (h : ∀ a ∈ l, f a = .ok (q a)) :
    l.mapM f = .ok (l.map q) := by
  induction l with
  | nil => rfl
  | cons a l ih =>
      rw [List.mapM_cons, h a List.mem_cons_self, ih fun b hb => h b (List.mem_cons_of_mem _ hb)]
      rfl

/-- The first item that fails is where it ends. -/
theorem mapM_eq_error {f : α → Except ε β} {i : Nat} {a : α} {err : ε} (hi : l[i]? = some a)
    (herr : f a = .error err) (hbefore : ∀ j < i, ∃ a b, l[j]? = some a ∧ f a = .ok b) :
    l.mapM f = .error err := by
  induction l generalizing i with
  | nil => cases hi
  | cons c l ih =>
      rw [List.mapM_cons]
      cases i with
      | zero =>
          obtain rfl := Option.some_inj.mp hi
          rw [herr]
          rfl
      | succ i =>
          obtain ⟨c', b, hc, hb⟩ := hbefore 0 i.succ_pos
          obtain rfl := Option.some_inj.mp hc
          rw [hb, ih hi fun j hj => hbefore (j + 1) (Nat.succ_lt_succ hj)]
          rfl

/-- If items can only fail with one and the same error, so can all of them together. -/
theorem mapM_eq_ite {f : α → Except ε β} {q : α → β} {err : ε} {p : α → Prop} [DecidablePred p]
    (h : ∀ a ∈ l, f a = if p a then .ok (q a) else .error err) :
    l.mapM f = if ∀ a ∈ l, p a then .ok (l.map q) else .error err := by
  induction l with
  | nil => rfl
  | cons a l ih =>
      obtain ⟨hhead, htail⟩ := List.forall_mem_cons.mp h
      rw [List.mapM_cons, hhead, ih htail]
      by_cases ha : p a
      · rw [if_pos ha]
        by_cases hl : ∀ b ∈ l, p b
        · rw [if_pos hl, if_pos (List.forall_mem_cons.mpr ⟨ha, hl⟩)]
          rfl
        · rw [if_neg hl, if_neg (fun hall => hl (List.forall_mem_cons.mp hall).2)]
          rfl
      · rw [if_neg ha, if_neg (fun hall => ha (List.forall_mem_cons.mp hall).1)]
        rfl

/-- A sequence that has a value has it from a value of its first part. -/
theorem of_bind_eq_ok {o : Except ε α} {f : α → Except ε β} {b : β} (h : o >>= f = .ok b) :
    ∃ a, o = .ok a ∧ f a = .ok b := by
  cases o with
  | error e => cases h
  | ok a => exact ⟨a, rfl, h⟩

/-- If all items have a value, which can only be one, the values are these. -/
theorem of_mapM_eq_ok {f : α → Except ε β} {q : α → β} {l' : List β} (h : l.mapM f = .ok l')
    (hq : ∀ a ∈ l, ∀ b, f a = .ok b → b = q a) :
    l' = l.map q ∧ ∀ a ∈ l, f a = .ok (q a) := by
  induction l generalizing l' with
  | nil =>
      cases h
      exact ⟨rfl, nofun⟩
  | cons a l ih =>
      obtain ⟨hhead, htail⟩ := List.forall_mem_cons.mp hq
      rw [List.mapM_cons] at h
      obtain ⟨b, hb, h⟩ := of_bind_eq_ok h
      obtain ⟨bs, hbs, h⟩ := of_bind_eq_ok h
      cases h
      obtain rfl := hhead b hb
      obtain ⟨rfl, hall⟩ := ih hbs htail
      exact ⟨rfl, List.forall_mem_cons.mpr ⟨hb, hall⟩⟩

end Complete

/-! ## The items of the list and nothing else -/

section Congruence

variable {β : Type} {l : List α}

omit [LawfulMonad m] in
/-- Tests that agree on the items give the same verdict. -/
theorem allM_congr {p q : α → m Bool} (h : ∀ a ∈ l, p a = q a) : l.allM p = l.allM q := by
  induction l with
  | nil => rfl
  | cons a l ih =>
      rw [List.allM, List.allM, h a List.mem_cons_self,
        ih fun b hb => h b (List.mem_cons_of_mem _ hb)]

omit [LawfulMonad m] in
theorem anyM_congr {p q : α → m Bool} (h : ∀ a ∈ l, p a = q a) : l.anyM p = l.anyM q := by
  induction l with
  | nil => rfl
  | cons a l ih =>
      rw [List.anyM, List.anyM, h a List.mem_cons_self,
        ih fun b hb => h b (List.mem_cons_of_mem _ hb)]

omit [LawfulMonad m] in
theorem firstFrom_congr {p q : α → m Bool} (h : ∀ a ∈ l, p a = q a) (start : Nat) :
    firstFrom start p l = firstFrom start q l := by
  induction l generalizing start with
  | nil => rfl
  | cons a l ih =>
      rw [firstFrom, firstFrom, h a List.mem_cons_self,
        ih (fun b hb => h b (List.mem_cons_of_mem _ hb)) (start + 1)]

/-- What is done with the first item depends on what would be done with each item. -/
theorem firstFrom_bind_congr (p : α → m Bool) (start : Nat) {k k' : Option (Nat × α) → m β}
    (h : ∀ a ∈ l, ∀ i, k (some (i, a)) = k' (some (i, a))) (hnone : k none = k' none) :
    firstFrom start p l >>= k = firstFrom start p l >>= k' := by
  induction l generalizing start with
  | nil => rw [firstFrom, pure_bind, pure_bind, hnone]
  | cons a l ih =>
      rw [firstFrom, bind_assoc, bind_assoc]
      congr 1
      funext b
      cases b with
      | true =>
          rw [if_pos rfl, pure_bind, pure_bind, h a List.mem_cons_self]
      | false => exact ih (start + 1) fun b hb => h b (List.mem_cons_of_mem _ hb)

/-- Computations that agree on the items give the same list. -/
theorem mapM_congr {f g : α → m β} (h : ∀ a ∈ l, f a = g a) : l.mapM f = l.mapM g := by
  induction l with
  | nil => rw [List.mapM_nil, List.mapM_nil]
  | cons a l ih =>
      rw [List.mapM_cons, List.mapM_cons, h a List.mem_cons_self,
        ih fun b hb => h b (List.mem_cons_of_mem _ hb)]

end Congruence

end TreeGrammar.Verdict
