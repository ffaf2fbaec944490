import TreeGrammar.Proofs.Verdict
import TreeGrammar.Proofs.Engine.DepthLimit

/-! # Matching and running — one grammar read in two ways

    Running a grammar as an action asks the matcher first, one step deeper, or picks
    the alternative that the matcher accepts.  So a grammar that is run answers what
    the matcher answers wherever that is not the verdict `true`, except that it may be
    cut short one step earlier. -/

namespace TreeGrammar

open Outcome (exceeded CutAt congruence_cutAt)

namespace Level

variable {l : Level Outcome} {s : Site} {g : Grammar}

theorem ensure_of_accepts (h : l.accepts s.root? s.node g = .ok true) : ensure l s g = .ok () := by
  rw [ensure, h]
  rfl

theorem ensure_of_rejects (h : l.accepts s.root? s.node g = .ok false) :
    ensure l s g = .error (noMatch s.node) := by
  rw [ensure, h]
  rfl

theorem accepts_of_ensure {u : Unit} (h : ensure l s g = .ok u) :
    l.accepts s.root? s.node g = .ok true := by
  rw [ensure] at h
  obtain ⟨b, hb, h⟩ := Verdict.of_bind_eq_ok h
  cases b with
  | true => exact hb
  | false => cases h

end Level

/-- What running a grammar on a tree may answer beside a verdict on the same tree. -/
inductive Agree (limit : Nat) (t : Tree) : Outcome Bool → Outcome Value → Prop where
  | cut (verdict : Outcome Bool) : Agree limit t verdict (exceeded limit)
  | accepted (answer : Outcome Value) : Agree limit t (.ok true) answer
  | rejected : Agree limit t (.ok false) (.error (Level.noMatch t))
  | failed (e : Error) : Agree limit t (.error e) (.error e)

namespace Agree

variable {limit : Nat} {t : Tree}

/-- The matcher was asked first, on a level that may cut it short. -/
theorem ensure {below : Level Outcome} {s : Site} {g : Grammar} {verdict : Outcome Bool}
    {k : Unit → Outcome Value} (h : CutAt limit (below.accepts s.root? s.node g) verdict) :
    Agree limit s.node verdict (Level.ensure below s g >>= k) := by
  rw [Level.ensure]
  rcases h with hcut | rfl
  · rw [hcut]
    exact .cut verdict
  · cases below.accepts s.root? s.node g with
    | error e => exact .failed e
    | ok b =>
        cases b with
        | true => exact .accepted _
        | false => exact .rejected

/-- The first item that passes was picked, or there was none. -/
theorem first {α : Type} {p : α → Outcome Bool} {l : List α}
    {k : Option (Nat × α) → Outcome Value} (hnone : k none = .error (Level.noMatch t)) :
    Agree limit t (l.anyM p) (Verdict.first p l >>= k) := by
  rw [← Verdict.isSome_first]
  cases Verdict.first p l with
  | error e => exact .failed e
  | ok found? =>
      cases found? with
      | none =>
          show Agree limit t (.ok false) (k none)
          rw [hnone]
          exact .rejected
      | some found => exact .accepted _

/-- One of two branches, taken by both. -/
theorem branch {condition : Outcome Bool} {yes no : Outcome Bool} {yes' no' : Outcome Value}
    (hyes : Agree limit t yes yes') (hno : Agree limit t no no') :
    Agree limit t (Verdict.choose condition (fun _ => yes) fun _ => no)
      (condition >>= fun b => if b then yes' else no') := by
  cases condition with
  | error e => exact .failed e
  | ok b =>
      cases b with
      | true => exact hyes
      | false => exact hno

/-- What computes something is accepted. -/
theorem verdict_eq {verdict : Outcome Bool} {v : Value} (h : Agree limit t verdict (.ok v)) :
    verdict = .ok true := by
  cases h with
  | accepted answer => rfl

/-- What is rejected computes nothing, and says so unless it is cut short. -/
theorem of_rejected {answer : Outcome Value} (h : Agree limit t (.ok false) answer) :
    answer = .error (Level.noMatch t) ∨ answer = exceeded limit := by
  cases h with
  | cut verdict => exact Or.inr rfl
  | rejected => exact Or.inl rfl

/-- What fails as a test fails in the same way when it is run, unless it is cut short. -/
theorem of_error {answer : Outcome Value} {e : Error} (h : Agree limit t (.error e) answer) :
    answer = .error e ∨ answer = exceeded limit := by
  cases h with
  | cut verdict => exact Or.inr rfl
  | failed e => exact Or.inl rfl

end Agree

/-- No item passes, so none is picked. -/
theorem Verdict.first_bind_of_none {α β : Type} {p : α → Outcome Bool} {l : List α}
    {k : Option (Nat × α) → Outcome β} (h : l.anyM p = .ok false) :
    first p l >>= k = k none := by
  rw [← isSome_first] at h
  match first p l, h with
  | .ok none, _ => rfl

/-- A verdict of a branch is one of the two, and the condition says which. -/
theorem Verdict.of_choose {condition yes no : Outcome Bool} {b : Bool}
    (h : choose condition (fun _ => yes) (fun _ => no) = .ok b) :
    (condition = .ok true ∧ yes = .ok b) ∨ (condition = .ok false ∧ no = .ok b) := by
  match condition, h with
  | .ok true, h => exact Or.inl ⟨rfl, h⟩
  | .ok false, h => exact Or.inr ⟨rfl, h⟩

namespace Level

/-- Running agrees with matching, everywhere on this level. -/
def Agrees (limit : Nat) (l : Level Outcome) : Prop :=
  ∀ (s : Site) (g : Grammar), Agree limit s.node (l.accepts s.root? s.node g) (l.transform s g)

variable {limit : Nat} {lo : Level Outcome} {lib : Library Outcome} {whenDefault : WhenDefault}

/-- One step: what a level may cut short, the next one decides in the same way. -/
theorem Agrees.step (h : lo.Agrees limit) {s : Site} {g : Grammar}
    (hcut : CutAt limit (lo.accepts s.root? s.node g) (acceptsStep lo s.root? s.node g)) :
    Agree limit s.node (acceptsStep lo s.root? s.node g) (transformStep lo lib s g) := by
  -- the matcher is asked first, or picks an alternative, or both follow the same branch
  cases g with
  | wildcard => exact .ensure hcut
  | exact signature => exact .ensure hcut
  | terminal kind? => exact .ensure hcut
  | literal l => exact .ensure hcut
  | node tag? gs => exact .ensure hcut
  | vararg tag? leading rest => exact .ensure hcut
  | all gs => exact .ensure hcut
  | any gs => exact .first rfl
  | except g => exact .ensure hcut
  | choose c yes no => exact .branch (h s yes) (h s no)
  | switch cases => exact .first rfl
  | recurse =>
      obtain ⟨root?, node, state, data⟩ := s
      cases root? with
      | none => exact .failed .unboundRecursion
      | some g => exact h _ g

/-- What the first of two levels rejects, the second refuses to run. -/
def Refuses (lo hi : Level Outcome) : Prop :=
  ∀ (s : Site) (g : Grammar), lo.accepts s.root? s.node g = .ok false →
    hi.transform s g = .error (noMatch s.node)

/-- One step, `hi` being the level above `lo`. -/
theorem Refuses.step {hi : Level Outcome} (h : Refuses lo hi)
    (hcut : Level.Related (CutAt limit) lo hi) {s : Site} {g : Grammar}
    (hhi : hi.accepts s.root? s.node g = .ok false)
    (hg : acceptsStep lo s.root? s.node g = .ok false) :
    transformStep hi lib s g = .error (noMatch s.node) := by
  have hensure {k : Unit → Outcome Value} :
      ensure hi s g >>= k = .error (noMatch s.node) := by
    rw [ensure_of_rejects hhi]
    rfl
  -- `lo` was not cut short, so the level above it says the same
  have hstep : acceptsStep hi s.root? s.node g = .ok false := by
    rcases hcut.acceptsStep (congruence_cutAt limit) s.root? s.node g with hex | heq
    · rw [hg] at hex
      cases hex
    · rw [heq, hg]
  cases g with
  | wildcard => exact hensure
  | exact signature => exact hensure
  | terminal kind? => exact hensure
  | literal l => exact hensure
  | node tag? gs => exact hensure
  | vararg tag? leading rest => exact hensure
  | all gs => exact hensure
  | any gs => exact Verdict.first_bind_of_none hstep
  | except g => exact hensure
  | choose c yes no =>
      -- the condition says the same on both levels, so the branch is the same one
      have hcondition {b : Bool} (hb : condition lo s.root? s.node c = .ok b) :
          condition hi s.root? s.node c = .ok b :=
        (hcut.condition (congruence_cutAt limit) s.root? s.node c).eq_ok hb
      rcases Verdict.of_choose hg with ⟨hc, hyes⟩ | ⟨hc, hno⟩
      · rw [transformStep, hcondition hc]
        exact h s yes hyes
      · rw [transformStep, hcondition hc]
        exact h s no hno
  | switch cases => exact Verdict.first_bind_of_none hstep
  | recurse =>
      obtain ⟨root?, node, state, data⟩ := s
      cases root? with
      | none => cases hg
      | some g => exact h _ g hg

end Level

namespace Engine

variable {lib : Library Outcome} {whenDefault : WhenDefault} {limit : Nat}

/-- Running agrees with matching on every level. -/
theorem agrees_level (n : Nat) : ((under lib whenDefault limit).level n).Agrees limit := by
  induction n with
  | zero =>
      intro s g
      exact .cut _
  | succ n ih =>
      intro s g
      exact ih.step ((related_cutAt (Nat.le_succ n)).accepts s.root? s.node g)

/-- What a level rejects, the next one refuses to run. -/
theorem refuses_level (n : Nat) : Level.Refuses ((under lib whenDefault limit).level n)
    ((under lib whenDefault limit).level (n + 1)) := by
  induction n with
  | zero =>
      intro s g h
      cases h
  | succ n ih =>
      intro s g h
      have hcut : Level.Related (CutAt limit) ((under lib whenDefault limit).level n)
          ((under lib whenDefault limit).level (n + 1)) := related_cutAt (Nat.le_succ n)
      exact ih.step hcut h h

/-- The engine with one more step. -/
def deeper (e : Engine Outcome) : Engine Outcome :=
  { e with config.maxDepth := e.config.maxDepth + 1 }

/-- What is run has been accepted; what is rejected is refused with the node's own tag and arity,
at the latest one step deeper; and an error of the matcher is the error of the run. -/
theorem transform_agrees (e : Engine Outcome) (t : Tree) (state data : Value) (g : Grammar) :
    (∀ v, e.transform t state data g = .ok v → e.accepts t g = .ok true)
      ∧ (e.accepts t g = .ok false →
          (e.transform t state data g = .error (.noMatch t.tag t.arity)
            ∨ e.transform t state data g = exceeded e.config.maxDepth)
          ∧ e.deeper.transform t state data g = .error (.noMatch t.tag t.arity))
      ∧ ∀ err, e.accepts t g = .error err → (∀ limit, err ≠ .depthExceeded limit) →
          e.transform t state data g = .error err
            ∨ e.transform t state data g = exceeded e.config.maxDepth := by
  have hagree : Agree e.config.maxDepth t (e.accepts t g) (e.transform t state data g) :=
    agrees_level e.config.maxDepth ⟨some g, t, state, data⟩ g
  refine ⟨?_, ?_, ?_⟩
  · intro v hv
    rw [hv] at hagree
    exact hagree.verdict_eq
  · intro hrejected
    constructor
    · rw [hrejected] at hagree
      exact hagree.of_rejected
    -- with one more step the matcher is not cut short where it was asked before
    · refine refuses_level e.config.maxDepth ⟨some g, t, state, data⟩ g ?_
      have hdeeper : CutAt e.config.maxDepth (e.accepts t g)
          ((e.deeper.level e.config.maxDepth).accepts (some g) t g) :=
        (related_cutAt (Nat.le_refl _)).accepts (some g) t g
      rw [hrejected] at hdeeper
      rcases hdeeper with hex | heq
      · cases hex
      · exact heq
  · intro err herr hother
    rw [herr] at hagree
    exact hagree.of_error

/-- An alternative that is run, a literal that is refused one step deeper than it is rejected, and
a condition without a verdict. -/
theorem transform_agrees_leaf :
    (under (.constant .unit) .pattern 3).accepts (.leaf (.int 1))
        (.any [.except .wildcard, .terminal none]) = .ok true
      ∧ (under (.constant .unit) .pattern 1).deeper.transform (.leaf (.int 1)) .unit .unit
          (.literal (.int 2)) = .error (.noMatch (.builtin .terminal) 0)
      ∧ ((under (.constant .unit) .pattern 2).transform (.leaf (.int 1)) .unit .unit
            (.choose (.leaf "unknown") .wildcard .wildcard)
              = .error (.typeMismatch "if" Value.unit.describe)
          ∨ (under (.constant .unit) .pattern 2).transform (.leaf (.int 1)) .unit .unit
            (.choose (.leaf "unknown") .wildcard .wildcard) = exceeded 2) := by
  refine ⟨?_, ?_, ?_⟩
  · exact (transform_agrees _ _ .unit .unit _).1 (.node (.leaf (.int 1))) rfl
  · exact ((transform_agrees _ _ .unit .unit _).2.1 rfl).2
  · exact (transform_agrees _ _ .unit .unit _).2.2 _ rfl (fun _ => nofun)

end Engine

end TreeGrammar
