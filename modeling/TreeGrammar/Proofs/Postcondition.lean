import Mathlib
import TreeGrammar.Proofs.Failure

/-! # Postconditions — what holds of every value a computation gives

    `SatisfiesM p x` says that `x` gives values with `p` and no others.  It holds of a
    sequence if it holds step by step.  An error that is thrown gives no value, so
    anything holds of it, in every monad where errors cut short what follows. -/

namespace TreeGrammar

/-- What holds of every value of a computation with a state holds of the value of each run. -/
theorem of_run_eq_ok {σ α : Type} {p : α → Prop} {x : StateT σ Outcome α} (h : SatisfiesM p x)
    {s s' : σ} {a : α} (hrun : x.run s = .ok (a, s')) : p a :=
  SatisfiesM_Except_eq.mp (SatisfiesM_StateT_eq.mp h s) (a, s') hrun

section

variable {m : Type → Type} [Monad m] {α β : Type}

/-- A computation that only fails meets every condition on its value. -/
theorem satisfiesM_throw [MonadExcept Error m] [LawfulThrow m] {p : α → Prop} (e : Error) :
    SatisfiesM p (throw e : m α) :=
  ⟨throw e, LawfulThrow.map_throw _ e⟩

variable [LawfulMonad m]

/-- A condition on the value of an outcome is one on the outcome as a computation. -/
theorem satisfiesM_lift [MonadExcept Error m] [LawfulThrow m] {p : α → Prop} {o : Outcome α}
    (h : SatisfiesM p o) : SatisfiesM p (Outcome.lift o : m α) := by
  cases o with
  | ok a => exact .pure (SatisfiesM_Except_eq.mp h a rfl)
  | error e => exact satisfiesM_throw e

/-- A condition on each of the values of a list is met by all of them together. -/
theorem satisfiesM_mapM {q : β → Prop} {f : α → m β} {l : List α}
    (h : ∀ a ∈ l, SatisfiesM q (f a)) : SatisfiesM (fun bs => ∀ b ∈ bs, q b) (l.mapM f) := by
  induction l with
  | nil =>
      rw [List.mapM_nil]
      exact .pure nofun
  | cons a l ih =>
      rw [List.mapM_cons]
      refine (h a List.mem_cons_self).bind fun b hb => ?_
      refine (ih fun a' ha' => h a' (List.mem_cons_of_mem _ ha')).bind fun bs hbs => ?_
      exact .pure (List.forall_mem_cons.mpr ⟨hb, hbs⟩)

/-- Whatever the verdict is, one of two branches follows. -/
theorem satisfiesM_branch {p : α → Prop} {verdict : m Bool} {yes no : m α}
    (hyes : SatisfiesM p yes) (hno : SatisfiesM p no) :
    SatisfiesM p (verdict >>= fun b => if b then yes else no) := by
  refine SatisfiesM.trivial.bind fun b _ => ?_
  cases b with
  | true => exact hyes
  | false => exact hno

/-- The first item that passes is an item of the list. -/
theorem satisfiesM_firstFrom (p : α → m Bool) (l : List α) :
    ∀ start, SatisfiesM (fun found? => ∀ found ∈ found?, found.2 ∈ l)
      (Verdict.firstFrom start p l) := by
  induction l with
  | nil =>
      intro start
      exact .pure nofun
  | cons a l ih =>
      intro start
      refine satisfiesM_branch (.pure ?_) ((ih (start + 1)).imp ?_)
      · intro found hfound
        cases hfound
        exact List.mem_cons_self
      · intro found? hfound found hmem
        exact List.mem_cons_of_mem a (hfound found hmem)

end

end TreeGrammar
