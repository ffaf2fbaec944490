import TreeGrammar.Proofs.Engine.MatchAndRun
import TreeGrammar.Proofs.Engine.Recursion
import TreeGrammar.Proofs.Engine.Within
import TreeGrammar.Proofs.Verdict

/-! # Flattening — nested lists of one kind are joined

    `Grammar.either` and `Grammar.both` put the alternatives or members of a grammar of
    their own kind in its place.  The joined list asks the same grammars in the same
    order and saves the step into the nested one, so it does what the nested lists do
    unless these are cut short.  An alternative inside of an alternative is found, and
    then found again when that is run; the joined list finds it at once.

    A conjunction is run by its last member.  If that is a conjunction itself, it is run
    by its own last member, which is the last of the joined list; only without members
    does it give the node, and the last of the joined list stands in front of it. -/

namespace TreeGrammar

open Outcome (CutAt congruence_cutAt)

/-- Items are attempted one after the other with related tests and related continuations. -/
theorem Congruence.foldr_attempt {R : ∀ {α : Type}, Outcome α → Outcome α → Prop}
    (hR : Congruence R) {α β : Type} {p p' : α → Outcome Bool} {next next' : α → Outcome β}
    {otherwise otherwise' : Outcome β} (hp : ∀ a, R (p a) (p' a)) (hnext : ∀ a, R (next a) (next' a))
    (hotherwise : R otherwise otherwise') (l : List α) :
    R (l.foldr (Verdict.attempt p next) otherwise)
      (l.foldr (Verdict.attempt p' next') otherwise') := by
  induction l with
  | nil => exact hotherwise
  | cons a l ih => exact hR.compatible.branch (hp a) (hnext a) ih

namespace Grammar

theorem alternatives_cases (a : Grammar) : (∃ gs, a = any gs) ∨ a.alternatives = [a] := by
  cases a with
  | any gs => exact .inl ⟨gs, rfl⟩
  | _ => exact .inr rfl

theorem members_cases (a : Grammar) : (∃ gs, a = all gs) ∨ a.members = [a] := by
  cases a with
  | all gs => exact .inl ⟨gs, rfl⟩
  | _ => exact .inr rfl

/-- Only the conjunction of nothing has no member. -/
theorem members_ne_nil {a : Grammar} (h : a ≠ all []) : a.members ≠ [] := by
  rcases a.members_cases with ⟨gs, rfl⟩ | hone
  · exact fun hgs => h (congrArg all hgs)
  · rw [hone]
    exact List.cons_ne_nil a []

end Grammar

namespace Level

variable {l : Level Outcome}

/-- A disjunction is run by attempting its alternatives. -/
theorem transformStep_any (lib : Library Outcome) (s : Site) (gs : List Grammar) :
    transformStep l lib s (.any gs)
      = gs.foldr (Verdict.attempt (l.accepts s.root? s.node) (l.transform s))
          (.error (noMatch s.node)) :=
  Verdict.firstFrom_bind_eq_foldr _ (fun _ _ => rfl) gs 0

end Level

namespace Engine

/-- With so many steps or fewer, matching and running inside of one grammar is matching and running
at some level inside of another, or cut short. -/
structure CutBelow (e : Engine Outcome) (n : Nat) (hi : Level Outcome)
    (root? root'? : Option Grammar) : Prop where
  accepts : ∀ k ≤ n, ∀ t g, CutAt e.config.maxDepth ((e.level k).accepts root? t g)
    (hi.accepts root'? t g)
  transform : ∀ k ≤ n, ∀ (s : Site) g, CutAt e.config.maxDepth
    ((e.level k).transform { s with root? } g) (hi.transform { s with root? := root'? } g)

namespace CutBelow

variable {e : Engine Outcome} {n n' : Nat} {root? root'? : Option Grammar}

/-- A level with more steps inside of the same grammar. -/
theorem of_le (hn : n ≤ n') (root? : Option Grammar) :
    e.CutBelow n (e.level n') root? root? where
  accepts := fun _ hk => (related_cutAt (Nat.le_trans hk hn)).accepts root?
  transform := fun _ hk s => (related_cutAt (Nat.le_trans hk hn)).transform { s with root? }

/-- Each of two grammars inside of itself. -/
theorem of_relatedWithin {g g' : Grammar}
    (h : ∀ k ≤ n,
      Level.RelatedWithin (CutAt e.config.maxDepth) (e.level k) (e.level n') g g') :
    e.CutBelow n (e.level n') (some g) (some g') where
  accepts := fun k hk => (h k hk).within.accepts none
  transform := fun k hk => (h k hk).within.transform

variable {hi : Level Outcome} (h : e.CutBelow n hi root? root'?)

include h

/-! ## Matching -/

/-- A grammar accepts what one of its alternatives accepts. -/
theorem accepts_alternatives (t : Tree) (a : Grammar) :
    CutAt e.config.maxDepth ((e.level n).accepts root? t a)
      (a.alternatives.anyM (hi.accepts root'? t)) := by
  rcases a.alternatives_cases with ⟨gs, rfl⟩ | hone
  · cases n with
    | zero => exact .inl rfl
    | succ k => exact (congruence_cutAt _).anyM (h.accepts k k.le_succ t) gs
  · rw [hone, Verdict.anyM_singleton]
    exact h.accepts n (Nat.le_refl n) t a

/-- A grammar accepts what all its members accept. -/
theorem accepts_members (t : Tree) (a : Grammar) :
    CutAt e.config.maxDepth ((e.level n).accepts root? t a)
      (a.members.allM (hi.accepts root'? t)) := by
  rcases a.members_cases with ⟨gs, rfl⟩ | hone
  · cases n with
    | zero => exact .inl rfl
    | succ k => exact (congruence_cutAt _).compatible.allM fun g _ => h.accepts k k.le_succ t g
  · rw [hone, Verdict.allM_singleton]
    exact h.accepts n (Nat.le_refl n) t a

/-- Joined alternatives accept what the two disjunctions accept one after the other. -/
theorem acceptsStep_either (t : Tree) (a b : Grammar) :
    CutAt e.config.maxDepth (Level.acceptsStep (e.level n) root? t (.any [a, b]))
      (Level.acceptsStep hi root'? t (a.either b)) := by
  have hnested : Level.acceptsStep (e.level n) root? t (.any [a, b])
      = (e.level n).accepts root? t a >>= fun verdict =>
          if verdict then pure true else (e.level n).accepts root? t b := by
    rw [Level.acceptsStep, ← List.singleton_append, Verdict.anyM_append, Verdict.anyM_singleton,
      Verdict.anyM_singleton]
  rw [hnested, Grammar.either, Level.acceptsStep, Verdict.anyM_append]
  exact (congruence_cutAt _).compatible.branch (h.accepts_alternatives t a) (.inr rfl)
    (h.accepts_alternatives t b)

/-- Joined members accept what the two conjunctions accept one after the other. -/
theorem acceptsStep_both (t : Tree) (a b : Grammar) :
    CutAt e.config.maxDepth (Level.acceptsStep (e.level n) root? t (.all [a, b]))
      (Level.acceptsStep hi root'? t (a.both b)) := by
  have hnested : Level.acceptsStep (e.level n) root? t (.all [a, b])
      = (e.level n).accepts root? t a >>= fun verdict =>
          if verdict then (e.level n).accepts root? t b else pure false := by
    rw [Level.acceptsStep, ← List.singleton_append, Verdict.allM_append, Verdict.allM_singleton,
      Verdict.allM_singleton]
  rw [hnested, Grammar.both, Level.acceptsStep, Verdict.allM_append]
  exact (congruence_cutAt _).compatible.branch (h.accepts_members t a) (h.accepts_members t b)
    (.inr rfl)

/-! ## Running a disjunction -/

/-- To attempt a grammar is to attempt its alternatives. -/
theorem attempt_alternatives (s : Site) (a : Grammar) {otherwise otherwise' : Outcome Value}
    (hotherwise : CutAt e.config.maxDepth otherwise otherwise') :
    CutAt e.config.maxDepth
      (Verdict.attempt ((e.level n).accepts root? s.node)
        ((e.level n).transform { s with root? }) a otherwise)
      (a.alternatives.foldr (Verdict.attempt (hi.accepts root'? s.node)
        (hi.transform { s with root? := root'? })) otherwise') := by
  have hR := congruence_cutAt e.config.maxDepth
  rcases a.alternatives_cases with ⟨gs, rfl⟩ | hone
  · cases n with
    | zero => exact .inl rfl
    | succ k =>
        -- the nested disjunction is asked as a whole, then again alternative by alternative
        have hnested : Verdict.attempt ((e.level (k + 1)).accepts root? s.node)
              ((e.level (k + 1)).transform { s with root? }) (.any gs) otherwise
            = gs.foldr (Verdict.attempt ((e.level k).accepts root? s.node)
                ((e.level k).transform { s with root? })) otherwise := by
          rw [← Verdict.anyM_bind_foldr _ _ (.error (Level.noMatch s.node)),
            ← Level.transformStep_any e.library { s with root? }]
          rfl
        rw [hnested]
        exact hR.foldr_attempt (h.accepts k k.le_succ s.node) (h.transform k k.le_succ s)
          hotherwise gs
  · rw [hone]
    exact hR.compatible.branch (h.accepts n (Nat.le_refl n) s.node a)
      (h.transform n (Nat.le_refl n) s a) hotherwise

/-- Joined alternatives compute what the first of the two disjunctions that accepts computes. -/
theorem transformStep_either (s : Site) (a b : Grammar) :
    CutAt e.config.maxDepth
      (Level.transformStep (e.level n) e.library { s with root? } (.any [a, b]))
      (Level.transformStep hi e.library { s with root? := root'? } (a.either b)) := by
  rw [Grammar.either, Level.transformStep_any, Level.transformStep_any, List.foldr_append]
  exact h.attempt_alternatives s a (h.attempt_alternatives s b (.inr rfl))

/-! ## Running a conjunction -/

/-- A member that has been accepted is run by its own last member. -/
theorem transform_last (s : Site) {b last : Grammar} (hlast : b.members.getLast? = some last)
    (haccepts : ∀ k, n = k + 1 → (e.level k).accepts root? s.node b = .ok true) :
    CutAt e.config.maxDepth ((e.level n).transform { s with root? } b)
      (hi.transform { s with root? := root'? } last) := by
  rcases b.members_cases with ⟨hs, rfl⟩ | hone
  · cases n with
    | zero => exact .inl rfl
    | succ k =>
        have hensure : Level.ensure (e.level k) { s with root? } (.all hs) = .ok () :=
          Level.ensure_of_accepts (haccepts k rfl)
        have hlastOf : hs.getLast? = some last := hlast
        show CutAt _ (Level.transformStep (e.level k) e.library { s with root? } (.all hs)) _
        rw [Level.transformStep, hensure, hlastOf]
        exact h.transform k k.le_succ s last
  · rw [hone] at hlast
    cases hlast
    exact h.transform n (Nat.le_refl n) s b

/-- If the two conjunctions accept the same, they are run by the same member. -/
theorem transformStep_both (s : Site) (a : Grammar) {b : Grammar} (hb : b ≠ .all [])
    (hverdict : CutAt e.config.maxDepth ((e.level n).accepts root? s.node (.all [a, b]))
      (hi.accepts root'? s.node (a.both b))) :
    CutAt e.config.maxDepth
      (Level.transformStep (e.level n) e.library { s with root? } (.all [a, b]))
      (Level.transformStep hi e.library { s with root? := root'? } (a.both b)) := by
  have hR := congruence_cutAt e.config.maxDepth
  have hensure : CutAt e.config.maxDepth
      (Level.ensure (e.level n) { s with root? } (.all [a, b]))
      (Level.ensure hi { s with root? := root'? } (a.both b)) :=
    hR.compatible.branch hverdict (.inr rfl) (.inr rfl)
  obtain ⟨last, hlast⟩ : ∃ last, b.members.getLast? = some last :=
    ⟨_, List.getLast?_eq_some_getLast (Grammar.members_ne_nil hb)⟩
  have hjoined : (a.members ++ b.members).getLast? = some last := by
    rw [List.getLast?_append, hlast]
    rfl
  rw [Grammar.both, Level.transformStep, Level.transformStep, hjoined]
  refine hensure.bind_of_eq_ok fun u hu => h.transform_last s hlast ?_
  rintro k rfl
  -- the verdict is one on each of the two members, a step below
  have hall : [a, b].allM ((e.level k).accepts root? s.node) = .ok true :=
    Level.accepts_of_ensure hu
  exact Verdict.of_allM_eq_true hall b (List.mem_cons_of_mem a List.mem_cons_self)

end CutBelow

/-! ## At every depth -/

variable (e : Engine Outcome) (a b : Grammar)

/-- Flattening a disjunction keeps what it accepts, and never needs more steps. -/
theorem cutAt_accepts_either (n : Nat) (root? : Option Grammar) (t : Tree) :
    CutAt e.config.maxDepth ((e.level n).accepts root? t (.any [a, b]))
      ((e.level n).accepts root? t (a.either b)) := by
  cases n with
  | zero => exact .inl rfl
  | succ n => exact (CutBelow.of_le (Nat.le_refl n) root?).acceptsStep_either t a b

/-- Flattening a conjunction keeps what it accepts, and never needs more steps. -/
theorem cutAt_accepts_both (n : Nat) (root? : Option Grammar) (t : Tree) :
    CutAt e.config.maxDepth ((e.level n).accepts root? t (.all [a, b]))
      ((e.level n).accepts root? t (a.both b)) := by
  cases n with
  | zero => exact .inl rfl
  | succ n => exact (CutBelow.of_le (Nat.le_refl n) root?).acceptsStep_both t a b

/-- Flattening a disjunction keeps what it computes. -/
theorem cutAt_transform_either (n : Nat) (s : Site) :
    CutAt e.config.maxDepth ((e.level n).transform s (.any [a, b]))
      ((e.level n).transform s (a.either b)) := by
  cases n with
  | zero => exact .inl rfl
  | succ n => exact (CutBelow.of_le (Nat.le_refl n) s.root?).transformStep_either s a b

/-- Flattening a conjunction keeps what it computes, unless the second is empty. -/
theorem cutAt_transform_both (hb : b ≠ .all []) (n : Nat) (s : Site) :
    CutAt e.config.maxDepth ((e.level n).transform s (.all [a, b]))
      ((e.level n).transform s (a.both b)) := by
  cases n with
  | zero => exact .inl rfl
  | succ n =>
      exact (CutBelow.of_le (Nat.le_refl n) s.root?).transformStep_both s a hb
        (e.cutAt_accepts_both a b n s.root? s.node)

/-- The conjunction of nothing gives the node. -/
theorem cutAt_transform_all_nil (n : Nat) (s : Site) :
    CutAt e.config.maxDepth ((e.level n).transform s (.all [])) (.ok (.node s.node)) :=
  match n with
  | 0 | 1 => .inl rfl
  | _ + 2 => .inr rfl

/-- In front of the conjunction of nothing, the last member is run where the node was the value. -/
theorem transform_both_all_nil {last : Grammar} (hlast : a.members.getLast? = some last) (n : Nat)
    (s : Site) {v : Value} (h : (e.level (n + 1)).transform s (.all [a, .all []]) = .ok v) :
    v = .node s.node
      ∧ (e.level (n + 1)).transform s (a.both (.all [])) = (e.level n).transform s last := by
  obtain ⟨u, hu, hv⟩ := Verdict.of_bind_eq_ok h
  have hnode : (Except.ok (.node s.node) : Outcome Value) = .ok v :=
    (e.cutAt_transform_all_nil n s).eq_ok hv
  refine ⟨(Except.ok.inj hnode).symm, ?_⟩
  have hensure : Level.ensure (e.level n) s (a.both (.all [])) = .ok () :=
    Level.ensure_of_accepts
      ((e.cutAt_accepts_both a (.all []) n s.root? s.node).eq_ok (Level.accepts_of_ensure hu))
  have hjoined : (a.members ++ Grammar.members (.all [])).getLast? = some last := by
    rw [Grammar.members, List.append_nil, hlast]
  rw [Grammar.both] at hensure ⊢
  show Level.transformStep (e.level n) e.library s (.all (a.members ++ _)) = _
  rw [Level.transformStep, hensure, hjoined]
  rfl

/-- The two disjunctions, each with itself to recurse into. -/
theorem relatedWithin_either {n n' : Nat} (hn : n ≤ n') :
    Level.RelatedWithin (CutAt e.config.maxDepth) (e.level n) (e.level n') (.any [a, b])
      (a.either b) := by
  refine e.relatedWithin_level (fun hbelow => ?_) hn
  have h := CutBelow.of_relatedWithin hbelow
  exact ⟨fun t => h.acceptsStep_either t a b, fun s => h.transformStep_either s a b⟩

/-- A flattened conjunction may stand anywhere in a grammar. -/
theorem relatedWithin_both (hb : b ≠ .all []) {n n' : Nat} (hn : n ≤ n') :
    Level.RelatedWithin (CutAt e.config.maxDepth) (e.level n) (e.level n') (.all [a, b])
      (a.both b) := by
  refine e.relatedWithin_level (fun {n _} hbelow => ?_) hn
  have h := CutBelow.of_relatedWithin hbelow
  exact ⟨fun t => h.acceptsStep_both t a b,
    fun s => h.transformStep_both s a hb ((hbelow n (Nat.le_refl n)).accepts s.node)⟩

/-- A disjunction or conjunction joined with the nested ones does the same as if it were not, with
whatever grammar to recurse into, at every depth and as a call of its own, unless that is cut short;
only a conjunction that ends in the one of nothing is run by the member in front of that instead. -/
theorem flattening_keeps_meaning :
    (∀ depth root? t,
        CutAt e.config.maxDepth ((e.atDepth depth).accepts root? t (.any [a, b]))
            ((e.atDepth depth).accepts root? t (a.either b))
          ∧ CutAt e.config.maxDepth ((e.atDepth depth).accepts root? t (.all [a, b]))
            ((e.atDepth depth).accepts root? t (a.both b)))
      ∧ (∀ depth s, CutAt e.config.maxDepth ((e.atDepth depth).transform s (.any [a, b]))
          ((e.atDepth depth).transform s (a.either b)))
      ∧ (b ≠ .all [] → ∀ depth s,
          CutAt e.config.maxDepth ((e.atDepth depth).transform s (.all [a, b]))
            ((e.atDepth depth).transform s (a.both b)))
      ∧ (b = .all [] → ∀ last, a.members.getLast? = some last → ∀ depth s v,
          (e.atDepth depth).transform s (.all [a, b]) = .ok v →
            v = .node s.node ∧ (e.atDepth depth).transform s (a.both b)
              = (e.atDepth (depth + 1)).transform s last)
      ∧ (∀ t state data,
          CutAt e.config.maxDepth (e.accepts t (.any [a, b])) (e.accepts t (a.either b))
            ∧ CutAt e.config.maxDepth (e.transform t state data (.any [a, b]))
              (e.transform t state data (a.either b)))
      ∧ (b ≠ .all [] → ∀ t state data,
          CutAt e.config.maxDepth (e.accepts t (.all [a, b])) (e.accepts t (a.both b))
            ∧ CutAt e.config.maxDepth (e.transform t state data (.all [a, b]))
              (e.transform t state data (a.both b))) := by
  refine ⟨fun depth root? t => ?_, fun depth s => ?_, fun hb depth s => ?_, ?_, ?_, ?_⟩
  · exact ⟨e.cutAt_accepts_either a b _ root? t, e.cutAt_accepts_both a b _ root? t⟩
  · exact e.cutAt_transform_either a b _ s
  · exact e.cutAt_transform_both a b hb _ s
  · rintro rfl last hlast depth s v h
    have hsucc : e.config.maxDepth - (depth + 1) = e.config.maxDepth - depth - 1 := by omega
    rw [atDepth] at h
    rw [atDepth, atDepth, hsucc]
    match e.config.maxDepth - depth, h with
    | n + 1, h => exact e.transform_both_all_nil a hlast n s h
  · intro t state data
    have hrelated := e.relatedWithin_either a b (Nat.le_refl e.config.maxDepth)
    exact ⟨hrelated.accepts t, hrelated.transform ⟨none, t, state, data⟩⟩
  · intro hb t state data
    have hrelated := e.relatedWithin_both a b hb (Nat.le_refl e.config.maxDepth)
    exact ⟨hrelated.accepts t, hrelated.transform ⟨none, t, state, data⟩⟩

/-- A conjunction that ends in another is run by the last member of that; and one that ends in the
conjunction of nothing gives the node, but joined with it the value. -/
theorem flattening_keeps_meaning_last :
    Grammar.all [.terminal none, .switch [Grammar.wildcard.runs .value]] ≠ .all []
      ∧ (under (.constant .unit) .pattern 8).transform (.leaf (.int 1)) .unit .unit
          (Grammar.both (.literal (.int 1))
            (.all [.terminal none, .switch [Grammar.wildcard.runs .value]]))
        = .ok (.lit (.int 1))
      ∧ (Grammar.members (.switch [Grammar.wildcard.runs .value])).getLast?
        = some (.switch [Grammar.wildcard.runs .value])
      ∧ ((under (.constant .unit) .pattern 8).atDepth 1).transform
          ⟨none, .leaf (.int 1), .unit, .unit⟩
          (Grammar.both (.switch [Grammar.wildcard.runs .value]) (.all []))
        = ((under (.constant .unit) .pattern 8).atDepth 2).transform
          ⟨none, .leaf (.int 1), .unit, .unit⟩ (.switch [Grammar.wildcard.runs .value])
      ∧ ((under (.constant .unit) .pattern 8).atDepth 2).transform
          ⟨none, .leaf (.int 1), .unit, .unit⟩ (.switch [Grammar.wildcard.runs .value])
        = .ok (.lit (.int 1)) := by
  have hb : Grammar.all [.terminal none, .switch [Grammar.wildcard.runs .value]] ≠ .all [] := nofun
  obtain ⟨-, -, -, -, -, hjoined⟩ :=
    flattening_keeps_meaning (under (.constant .unit) .pattern 8) (.literal (.int 1)) (.all
      [.terminal none, .switch [Grammar.wildcard.runs .value]])
  obtain ⟨-, -, -, hnothing, -, -⟩ :=
    flattening_keeps_meaning (under (.constant .unit) .pattern 8)
      (.switch [Grammar.wildcard.runs .value]) (.all [])
  refine ⟨hb, ?_, rfl, ?_, rfl⟩
  · exact (hjoined hb (.leaf (.int 1)) .unit .unit).2.eq_ok rfl
  · exact (hnothing rfl _ rfl 1 ⟨none, .leaf (.int 1), .unit, .unit⟩ (.node (.leaf (.int 1))) rfl).2

end Engine

end TreeGrammar
