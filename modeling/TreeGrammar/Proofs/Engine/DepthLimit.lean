import Mathlib.Data.Nat.Find
import TreeGrammar.Proofs.Engine.Simulation

/-! # The depth limit — it cuts a run short and does nothing else

    The same call under two limits: as long as the smaller limit is not reached, both
    make the same steps.  `Outcome.CutAt` compares the two outcomes, and sequencing
    respects it because no step looks into an error.  With a library that never raises
    the error of the limit itself, every call has one threshold: below it the limit is
    exceeded, and from it on the answer is always the same. -/

namespace TreeGrammar

namespace Outcome

variable {α : Type}

/-- The error of a limit, where a run is cut short. -/
def exceeded (limit : Nat) : Outcome α :=
  .error (.depthExceeded limit)

/-- The second outcome is the first, unless the first is cut short at the limit. -/
def CutAt (limit : Nat) (o o' : Outcome α) : Prop :=
  o = exceeded limit ∨ o' = o

/-- As `CutAt`, where no other step raises the error of a limit. -/
def SettledOrCutAt (limit : Nat) (o o' : Outcome α) : Prop :=
  o = exceeded limit ∨ (o' = o ∧ o.Settled)

/-- A value is not cut short. -/
theorem CutAt.eq_ok {limit : Nat} {o o' : Outcome α} {a : α} (h : CutAt limit o o')
    (ho : o = .ok a) : o' = .ok a := by
  rcases h with hcut | heq
  · rw [ho] at hcut
    cases hcut
  · rw [heq, ho]

/-- What follows is compared for the value that is there, if there is one. -/
theorem CutAt.bind_of_eq_ok {β : Type} {limit : Nat} {o o' : Outcome α} {f f' : α → Outcome β}
    (ho : CutAt limit o o') (hf : ∀ a, o = .ok a → CutAt limit (f a) (f' a)) :
    CutAt limit (o >>= f) (o' >>= f') := by
  rcases ho with rfl | rfl
  · exact Or.inl rfl
  · match o', hf with
    | .ok a, hf => exact hf a rfl
    | .error e, _ => exact Or.inr rfl

/-- What is cut short in a part is cut short as a whole. -/
theorem congruence_cutAt (limit : Nat) : Congruence (CutAt limit) where
  settled := fun _ => Or.inr rfl
  bind := fun ho hf => ho.bind_of_eq_ok fun a _ => hf a

theorem congruence_settledOrCutAt (limit : Nat) : Congruence (SettledOrCutAt limit) where
  settled := fun h => Or.inr ⟨rfl, h⟩
  bind := by
    rintro α β o o' f f' (rfl | ⟨rfl, ho⟩) hf
    · exact Or.inl rfl
    · match o', ho with
      | .ok a, _ => exact hf a
      | .error e, ho => exact Or.inr ⟨rfl, settled_error fun limit h => ho limit (h ▸ rfl)⟩

end Outcome

open Outcome (exceeded CutAt SettledOrCutAt congruence_cutAt congruence_settledOrCutAt)

/-- A library that never raises the error of the depth limit. -/
structure Library.Settled (lib : Library Outcome) : Prop where
  function : ∀ name args, (lib.function name args).Settled
  leaf : ∀ name t state data, (lib.leaf name t state data).Settled

/-- The library does the same whatever the limit is. -/
theorem Library.related_cutAt (lib : Library Outcome) (limit : Nat) :
    lib.Related (CutAt limit) :=
  ⟨fun _ _ => Or.inr rfl, fun _ _ _ _ => Or.inr rfl⟩

/-- The library whose computations all have one value. -/
def Library.constant (v : Value) : Library Outcome where
  function _ _ := .ok v
  leaf _ _ _ _ := .ok v

/-- Constant functions never report the limit. -/
theorem Library.settled_constant (v : Value) : (constant v).Settled where
  function := fun _ _ => Outcome.settled_ok v
  leaf := fun _ _ _ _ => Outcome.settled_ok v

/-- The engine of a library and a default under a limit. -/
def Engine.under (lib : Library Outcome) (whenDefault : WhenDefault) (limit : Nat) :
    Engine Outcome :=
  ⟨lib, ⟨limit, whenDefault⟩⟩

namespace Engine

variable {lib : Library Outcome} {whenDefault : WhenDefault} {limit limit' n n' : Nat}

/-- A deeper level under a larger limit gives the same outcomes or is not reached. -/
theorem related_cutAt (hn : n ≤ n') :
    Level.Related (CutAt limit) ((under lib whenDefault limit).level n)
      ((under lib whenDefault limit').level n') :=
  related_level (congruence_cutAt limit) (under lib whenDefault limit)
    (under lib whenDefault limit') (lib.related_cutAt limit) rfl rfl (fun _ => Or.inl rfl) hn

/-- With more steps, what has settled stays as it is, under any other limit. -/
theorem related_settledOrCutAt (hlib : lib.Settled) (hn : n ≤ n') :
    Level.Related (SettledOrCutAt limit) ((under lib whenDefault limit).level n)
      ((under lib whenDefault limit').level n') :=
  related_level (congruence_settledOrCutAt limit) (under lib whenDefault limit)
    (under lib whenDefault limit')
    ⟨fun name args => Or.inr ⟨rfl, hlib.function name args⟩,
      fun name t state data => Or.inr ⟨rfl, hlib.leaf name t state data⟩⟩ rfl rfl
    (fun _ => Or.inl rfl) hn

end Engine

/-- What a call answers under each limit, where the limit can only cut it short. -/
structure LimitOnlyCuts {α : Type} (run : Nat → Outcome α) : Prop where
  /-- Under a larger limit the answer stays. -/
  settled : ∀ {limit limit'}, limit ≤ limit' → (run limit).Settled → run limit' = run limit
  /-- Under a smaller limit there is none either, and the error names that limit. -/
  exceeded : ∀ {limit limit' named}, limit ≤ limit' → run limit' = exceeded named →
    run limit = exceeded limit
  /-- There is one threshold, which may never be reached, and one answer from it on. -/
  threshold : (∀ limit, run limit = Outcome.exceeded limit) ∨
    ∃ threshold answer, answer.Settled ∧
      ∀ limit, run limit = if limit < threshold then Outcome.exceeded limit else answer

namespace LimitOnlyCuts

/-- It is enough to compare the outcomes under any two limits. -/
theorem of_settledOrCutAt {α : Type} {run : Nat → Outcome α}
    (h : ∀ {limit limit'}, limit ≤ limit' →
      SettledOrCutAt limit (run limit) (run limit')) : LimitOnlyCuts run := by
  have hsettled {limit limit'} (hle : limit ≤ limit') (hs : (run limit).Settled) :
      run limit' = run limit := by
    rcases h hle with hcut | ⟨heq, -⟩
    · exact absurd hcut (hs limit)
    · exact heq
  have hexceeded {limit limit' named} (hle : limit ≤ limit')
      (he : run limit' = Outcome.exceeded named) : run limit = Outcome.exceeded limit := by
    rcases h hle with hcut | ⟨heq, hs⟩
    · exact hcut
    · exact absurd (heq ▸ he) (hs named)
  refine ⟨hsettled, hexceeded, ?_⟩
  by_cases hex : ∃ limit, (run limit).Settled
  · classical
    -- the least limit with an answer is the threshold
    refine Or.inr ⟨Nat.find hex, run (Nat.find hex), Nat.find_spec hex, ?_⟩
    intro limit
    by_cases hlt : limit < Nat.find hex
    · rw [if_pos hlt]
      rcases h (Nat.le_refl limit) with hcut | ⟨-, hs⟩
      · exact hcut
      · exact absurd hs (Nat.find_min hex hlt)
    · rw [if_neg hlt]
      exact hsettled (Nat.le_of_not_lt hlt) (Nat.find_spec hex)
  · refine Or.inl fun limit => ?_
    rcases h (Nat.le_refl limit) with hcut | ⟨-, hs⟩
    · exact hcut
    · exact absurd ⟨limit, hs⟩ hex

end LimitOnlyCuts

open Engine (under)

/-- Whatever is matched, selected or run, and whatever a guard without an action does, the limit can
only cut the call short, as long as the user's functions and leaves do not raise its error. -/
theorem Engine.limit_only_cuts (lib : Library Outcome) (hlib : lib.Settled)
    (whenDefault : WhenDefault) (t : Tree) (state data : Value) (g : Grammar) (a : Action) :
    LimitOnlyCuts (fun limit => (under lib whenDefault limit).accepts t g)
      ∧ LimitOnlyCuts (fun limit => (under lib whenDefault limit).select t g)
      ∧ LimitOnlyCuts (fun limit => (under lib whenDefault limit).apply t state data a)
      ∧ LimitOnlyCuts (fun limit => (under lib whenDefault limit).transform t state data g) := by
  have hlevel {limit limit'} (hle : limit ≤ limit') :
      Level.Related (SettledOrCutAt limit) (under lib whenDefault limit).top
        (under lib whenDefault limit').top := related_settledOrCutAt hlib hle
  refine ⟨.of_settledOrCutAt fun hle => ?_, .of_settledOrCutAt fun hle => ?_,
    .of_settledOrCutAt fun hle => ?_, .of_settledOrCutAt fun hle => ?_⟩
  · exact (hlevel hle).accepts (some g) t g
  · exact related_select (congruence_settledOrCutAt _) (hlevel hle) t g
  · exact (hlevel hle).apply ⟨none, t, state, data⟩ a
  · exact (hlevel hle).transform ⟨some g, t, state, data⟩ g

/-- A guarded run that is cut short at every limit below five, and a grammar that no limit is enough
for. -/
theorem Engine.limit_only_cuts_guarded :
    LimitOnlyCuts (fun limit => (under (.constant .unit) .pattern limit).apply
        (.node (.user "f") [.leaf (.int 1), .leaf (.str "a")]) .unit .unit
        (.when (.node none [.terminal none, .any [.literal (.int 1), .wildcard]]) none))
      ∧ LimitOnlyCuts (fun limit => (under (.constant .unit) .passThrough limit).accepts
        (.leaf .unit) (.except .recurse)) :=
  ⟨(limit_only_cuts (.constant .unit) (Library.settled_constant _) .pattern _ _ _ .wildcard
      _).2.2.1,
    (limit_only_cuts (.constant .unit) (Library.settled_constant _) .passThrough _ .unit .unit _
      .passThrough).1⟩

end TreeGrammar
