import TreeGrammar.Proofs.Engine.Question

/-! # Failing runs — the errors of an engine inside a grammar

    Where a grammar encloses the site, the steps below have one as well: children,
    conditions and arguments keep it, and a nested algorithm puts its own in the place.
    So a step there never raises the error of an unbound `recurse`.  If the user's
    computations and the depth limit fail in allowed ways only, so does every run. -/

namespace TreeGrammar

open Outcome (FailsOnly failsOnly_ok failsOnly_error)

variable {E : Error → Prop}

/-- There is a grammar that `recurse` means. -/
def Site.Bound (s : Site) : Prop :=
  s.root?.isSome = true

/-- The user's functions and leaves fail in allowed ways only. -/
structure Library.FailsOnly (E : Error → Prop) (lib : Library Outcome) : Prop where
  function : ∀ name args, (lib.function name args).FailsOnly E
  leaf : ∀ name t state data, (lib.leaf name t state data).FailsOnly E

/-- Inside a grammar, whatever is asked of the level fails in allowed ways only. -/
structure Level.FailsOnly (E : Error → Prop) (l : Level Outcome) : Prop where
  accepts : ∀ {root?}, root?.isSome = true → ∀ t g, (l.accepts root? t g).FailsOnly E
  apply : ∀ {s}, s.Bound → ∀ a, (l.apply s a).FailsOnly E
  transform : ∀ {s}, s.Bound → ∀ g, (l.transform s g).FailsOnly E
  rebuild : ∀ t, (l.rebuild t).FailsOnly E
  evaluate : ∀ {s}, s.Bound → ∀ inner?, (l.evaluate s inner?).FailsOnly E

namespace Question

/-- A grammar encloses what is asked, if it matters. -/
def Bound : Question → Prop
  | accepts root? _ _ => root?.isSome = true
  | rebuild _ => True
  | apply s _ | transform s _ | evaluate s _ => s.Bound

/-- A question about a bound grammar is never the one that recursion has no answer to. -/
theorem Bound.not_isUnbound {q : Question} (hq : q.Bound) : ¬ q.IsUnbound := by
  intro hnone
  cases hnone <;> cases hq

/-- What a step asks is enclosed as the step is, or by a nested algorithm. -/
theorem Bound.of_asks {w : WhenDefault} {q q' : Question} (hq : q.Bound) (h : q.Asks w q') :
    q'.Bound := by
  cases h with
  | algorithm => exact rfl
  | guardedCopy | copy | rebuildChild => exact trivial
  | _ => exact hq

end Question

namespace Level.FailsOnly

/-- Computations that fail only in some ways do so one after the other as well. -/
theorem compatible (hE : ∀ err : Error, err.OfStep → E err) :
    Compatible Outcome Outcome fun o _ => o.FailsOnly E where
  own := by
    intro α o ho
    rw [Outcome.lift_eq]
    exact ho.mono hE
  bind := Outcome.FailsOnly.bind

variable {below : Level Outcome} (h : below.FailsOnly E)

include h

theorem answer {q : Question} (hq : q.Bound) : (below.answer q).FailsOnly E := by
  cases q with
  | accepts root? t g => exact h.accepts hq t g
  | apply s a => exact h.apply hq a
  | transform s g => exact h.transform hq g
  | rebuild t => exact h.rebuild t
  | evaluate s inner? => exact h.evaluate hq inner?

variable (hE : ∀ err : Error, err.OfStep → E err) {lib : Library Outcome} (hlib : lib.FailsOnly E)

include hE hlib

/-- One step on top of a level fails only as the level and the library do. -/
theorem answer_above (w : WhenDefault) {q : Question} (hq : q.Bound) :
    ((Level.above lib w fun _ => below).answer q).FailsOnly E := by
  have hsame : lib.Compared lib fun o _ => o.FailsOnly E := ⟨hlib.function, hlib.leaf⟩
  refine (compatible hE).answer_above hsame below below (fun q' hasks => ?_) fun hnone => ?_
  · exact h.answer (hq.of_asks hasks)
  · exact absurd hnone hq.not_isUnbound

/-- The level above fails in allowed ways only as well. -/
theorem above (w : WhenDefault) : (Level.above lib w fun _ => below).FailsOnly E where
  accepts := fun {root?} hroot t g => h.answer_above hE hlib w (q := .accepts root? t g) hroot
  apply := fun {s} hs a => h.answer_above hE hlib w (q := .apply s a) hs
  transform := fun {s} hs g => h.answer_above hE hlib w (q := .transform s g) hs
  rebuild := fun t => h.answer_above hE hlib w (q := .rebuild t) trivial
  evaluate := fun {s} hs inner? => h.answer_above hE hlib w (q := .evaluate s inner?) hs

end Level.FailsOnly

namespace Engine

variable {e : Engine Outcome} (hE : ∀ err : Error, err.OfStep → E err)
  (hlib : e.library.FailsOnly E) (hlimit : E (.depthExceeded e.config.maxDepth))

include hE hlib hlimit

/-- Inside a grammar every level fails in allowed ways only. -/
theorem failsOnly_level (n : Nat) : (e.level n).FailsOnly E := by
  induction n with
  | zero => exact ⟨fun _ _ _ => failsOnly_error hlimit, fun _ _ => failsOnly_error hlimit,
      fun _ _ => failsOnly_error hlimit, fun _ => failsOnly_error hlimit,
      fun _ _ => failsOnly_error hlimit⟩
  | succ n ih => exact ih.above hE hlib e.config.whenDefault

/-- A selection fails only as the questions of its search do. -/
theorem failsOnly_select (t : Tree) (g : Grammar) : (e.select t g).FailsOnly E := by
  have htop : e.top.FailsOnly E := failsOnly_level hE hlib hlimit _
  rw [select_eq]
  exact (Level.FailsOnly.compatible hE).select e.top e.top fun g' => htop.accepts rfl t g'

end Engine

end TreeGrammar
