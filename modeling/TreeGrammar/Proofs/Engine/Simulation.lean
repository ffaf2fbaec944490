import TreeGrammar.Proofs.Engine.Question

/-! # Simulation — what a level keeps of the level below it

    A relation between outcomes that sequencing respects passes from two levels to the
    two levels above them, whatever is asked.  `Congruence` names such a relation, and
    `Level.Related.above` is that step.

    The errors a step raises by itself are never that of the depth limit: it is raised
    where nothing can be done any more, and there alone.  `Outcome.Settled` says so of
    an outcome, and it holds of the operations that do not use a level. -/

namespace TreeGrammar

namespace Outcome

variable {α : Type}

/-- The outcome is not the error of the depth limit. -/
def Settled (o : Outcome α) : Prop :=
  ∀ limit, o ≠ .error (.depthExceeded limit)

theorem settled_ok (a : α) : Settled (.ok a) := by
  intro limit h
  cases h

/-- Any other error is settled. -/
theorem settled_error {e : Error} (h : ∀ limit, e ≠ .depthExceeded limit) :
    Settled (.error e : Outcome α) := by
  intro limit he
  exact h limit (Except.error.inj he)

/-- The errors of a step are settled; only a level reports the limit. -/
theorem settled_ofStep {o : Outcome α} (h : o.FailsOnly Error.OfStep) : o.Settled := by
  intro limit ho
  exact h _ ho

end Outcome

open Outcome (Settled settled_ok settled_error settled_ofStep)

/-! ## Relations that sequencing respects -/

/-- A relation between outcomes that relates every settled outcome to itself, and what follows on
related outcomes if it is related for every value. -/
structure Congruence (R : ∀ {α : Type}, Outcome α → Outcome α → Prop) : Prop where
  settled : ∀ {α : Type} {o : Outcome α}, o.Settled → R o o
  bind : ∀ {α β : Type} {o o' : Outcome α} {f f' : α → Outcome β},
    R o o' → (∀ a, R (f a) (f' a)) → R (o >>= f) (o' >>= f')

namespace Congruence

variable {R : ∀ {α : Type}, Outcome α → Outcome α → Prop} (hR : Congruence R)
variable {α β : Type}

include hR

theorem error {e : Error} (h : ∀ limit, e ≠ .depthExceeded limit) :
    R (.error e : Outcome α) (.error e) :=
  hR.settled (settled_error h)

theorem compatible : Compatible Outcome Outcome R where
  own := by
    intro α o ho
    rw [Outcome.lift_eq]
    exact hR.settled (settled_ofStep ho)
  bind := hR.bind

section Lists

variable {p p' : α → Outcome Bool} (hp : ∀ a, R (p a) (p' a))

include hp

theorem anyM (l : List α) : R (l.anyM p) (l.anyM p') :=
  hR.compatible.anyM fun a _ => hp a

theorem first (l : List α) : R (Verdict.first p l) (Verdict.first p' l) :=
  hR.compatible.first fun a _ => hp a

end Lists

end Congruence

/-! ## The steps -/

/-- Whatever is asked of two levels, the outcomes are related. -/
structure Level.Related (R : ∀ {α : Type}, Outcome α → Outcome α → Prop)
    (lo hi : Level Outcome) : Prop where
  accepts : ∀ root? t g, R (lo.accepts root? t g) (hi.accepts root? t g)
  apply : ∀ s a, R (lo.apply s a) (hi.apply s a)
  transform : ∀ s g, R (lo.transform s g) (hi.transform s g)
  rebuild : ∀ t, R (lo.rebuild t) (hi.rebuild t)
  evaluate : ∀ s inner?, R (lo.evaluate s inner?) (hi.evaluate s inner?)

/-- What the user's functions and leaves give is related to itself. -/
structure Library.Related (R : ∀ {α : Type}, Outcome α → Outcome α → Prop)
    (lib : Library Outcome) : Prop where
  function : ∀ name args, R (lib.function name args) (lib.function name args)
  leaf : ∀ name t state data, R (lib.leaf name t state data) (lib.leaf name t state data)

namespace Level.Related

variable {R : ∀ {α : Type}, Outcome α → Outcome α → Prop} (hR : Congruence R)
variable {lo hi : Level Outcome} (h : Level.Related R lo hi)
variable {lib : Library Outcome} (hlib : lib.Related R)

include hR h

theorem condition (root? : Option Grammar) (t : Tree) (c : Action) :
    R (Level.condition lo root? t c) (Level.condition hi root? t c) :=
  hR.compatible.condition (h.apply _ c)

theorem firstCase (root? : Option Grammar) (t : Tree) (cases : List Case) :
    R (Level.firstCase lo root? t cases) (Level.firstCase hi root? t cases) :=
  hR.first (fun c : Case => h.accepts root? t c.pattern) cases

theorem firstAlternative (root? : Option Grammar) (t : Tree) (gs : List Grammar) :
    R (Level.firstAlternative lo root? t gs) (Level.firstAlternative hi root? t gs) :=
  hR.first (h.accepts root? t) gs

omit hR in
/-- Related levels answer every question in related ways. -/
theorem answer (q : Question) : R (lo.answer q) (hi.answer q) := by
  cases q with
  | accepts root? t g => exact h.accepts root? t g
  | apply s a => exact h.apply s a
  | transform s g => exact h.transform s g
  | rebuild t => exact h.rebuild t
  | evaluate s inner? => exact h.evaluate s inner?

/-- Steps that match on related levels are related. -/
theorem acceptsStep (root? : Option Grammar) (t : Tree) (g : Grammar) :
    R (Level.acceptsStep lo root? t g) (Level.acceptsStep hi root? t g) :=
  hR.compatible.acceptsStep (w := .pattern) (fun q _ => h.answer q)
    fun _ => hR.error fun _ => nofun

include hlib in
theorem callStep (s : Site) (function : Action) (args : List Action) :
    R (Level.callStep lo lib s function args) (Level.callStep hi lib s function args) :=
  hR.compatible.callStep ⟨hlib.function, hlib.leaf⟩ fun a _ => h.apply s a

include hlib in
theorem caseStep (s : Site) (c : Case) :
    R (Level.caseStep lo lib s c) (Level.caseStep hi lib s c) :=
  hR.compatible.caseStep ⟨hlib.function, hlib.leaf⟩ (h.transform s c.pattern)
    fun a _ => h.apply s a

include hlib in
/-- What is asked of the levels above them is related as well. -/
theorem answer_above (whenDefault : WhenDefault) (q : Question) :
    R ((Level.above lib whenDefault fun _ => lo).answer q)
      ((Level.above lib whenDefault fun _ => hi).answer q) :=
  hR.compatible.answer_above ⟨hlib.function, hlib.leaf⟩ lo hi (fun q' _ => h.answer q')
    fun _ => hR.error fun _ => nofun

include hlib in
/-- The levels above two related levels are related. -/
theorem above (whenDefault : WhenDefault) :
    Level.Related R (.above lib whenDefault fun _ => lo) (.above lib whenDefault fun _ => hi) where
  accepts := fun root? t g => answer_above hR h hlib whenDefault (.accepts root? t g)
  apply := fun s a => answer_above hR h hlib whenDefault (.apply s a)
  transform := fun s g => answer_above hR h hlib whenDefault (.transform s g)
  rebuild := fun t => answer_above hR h hlib whenDefault (.rebuild t)
  evaluate := fun s inner? => answer_above hR h hlib whenDefault (.evaluate s inner?)

end Level.Related

/-- Two engines of one library and one default are related at any depths, if where the first can do
nothing it is related to whatever the second does. -/
theorem Engine.related_level {R : ∀ {α : Type}, Outcome α → Outcome α → Prop}
    (hR : Congruence R) (e e' : Engine Outcome) (hlib : e.library.Related R)
    (hsame : e'.library = e.library) (hdefault : e'.config.whenDefault = e.config.whenDefault)
    (hcut : ∀ {α : Type} (o : Outcome α), R (.error (.depthExceeded e.config.maxDepth)) o)
    {n n' : Nat} (hn : n ≤ n') : Level.Related R (e.level n) (e'.level n') := by
  induction n generalizing n' with
  -- nothing can be done here, whatever the second engine still can
  | zero => exact ⟨fun _ _ _ => hcut _, fun _ _ => hcut _, fun _ _ => hcut _, fun _ => hcut _,
      fun _ _ => hcut _⟩
  | succ n ih =>
      match n', hn with
      | n' + 1, hn =>
          rw [Engine.level, Engine.level, hsame, hdefault]
          exact (ih (Nat.le_of_succ_le_succ hn)).above hR hlib _

/-- Selecting is related if the top levels are. -/
theorem Engine.related_select {R : ∀ {α : Type}, Outcome α → Outcome α → Prop}
    (hR : Congruence R) {e e' : Engine Outcome} (h : Level.Related R e.top e'.top) (t : Tree)
    (g : Grammar) : R (e.select t g) (e'.select t g) := by
  rw [select_eq, select_eq]
  exact hR.compatible.select e.top e'.top (h.accepts (some g) t)

end TreeGrammar
