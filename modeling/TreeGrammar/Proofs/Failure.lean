import TreeGrammar.Engine

/-! # Failure — the errors that operations raise by themselves

    A step of the engine fails for a reason of its own, or it hands on an error from
    further down.  Those that only arise further down are the error of the depth limit,
    that of a `recurse` which nothing encloses, and the user's own.  Once an error is
    thrown, what would follow does not matter, which `LawfulThrow` asks of a monad.
    `Outcome.FailsOnly` says that an outcome is a value or an error of some kind, and
    sequencing keeps it.  Operators fail with errors about their operands or the number
    of these, and building or taking apart a node fails for no other reason than a step
    would. -/

namespace TreeGrammar

/-- Errors that are thrown cut short what follows. -/
class LawfulThrow (m : Type → Type) [Monad m] [MonadExcept Error m] : Prop where
  map_throw : ∀ {α β : Type} (f : α → β) (e : Error), f <$> (throw e : m α) = throw e

instance : LawfulThrow Outcome where
  map_throw _ _ := rfl

instance {σ : Type} : LawfulThrow (StateT σ Outcome) where
  map_throw _ _ := rfl

/-- What would follow on an error does not matter. -/
theorem LawfulThrow.throw_bind {m : Type → Type} [Monad m] [LawfulMonad m] [MonadExcept Error m]
    [LawfulThrow m] {α β : Type} (err : Error) (f : α → m β) :
    (throw err : m α) >>= f = throw err := by
  -- nothing can be given to what follows
  rw [← map_throw (Empty.elim : Empty → α) err, bind_map_left,
    ← map_throw (Empty.elim : Empty → β) err, map_eq_pure_bind]
  exact bind_congr nofun

namespace Error

/-- The error is about what the operands of an operator are. -/
def OfOperands : Error → Prop
  | typeMismatch _ _ | divisionByZero _ | overflow _ | noDefault _ => True
  | _ => False

/-- The error is about an operator and its operands. -/
def OfOperator : Error → Prop
  | arityMismatch _ _ _ | typeMismatch _ _ | divisionByZero _ | overflow _ | noDefault _ => True
  | _ => False

/-- A step with an enclosing grammar may raise the error by itself. -/
def OfStep : Error → Prop
  | unboundRecursion | depthExceeded _ | custom _ => False
  | _ => True

/-- What the operands may be at fault for, an operator may be as well. -/
theorem OfOperands.ofOperator {e : Error} (h : e.OfOperands) : e.OfOperator := by
  cases e <;> first | exact trivial | exact h.elim

/-- Every failure of an operator is one of a step. -/
theorem OfOperator.ofStep {e : Error} (h : e.OfOperator) : e.OfStep := by
  cases e <;> first | exact trivial | exact h.elim

end Error

namespace Outcome

variable {α β : Type} {E E' : Error → Prop}

/-- The outcome is a value, or an error of this kind. -/
def FailsOnly (E : Error → Prop) (o : Outcome α) : Prop :=
  ∀ e, o = .error e → E e

theorem failsOnly_ok (a : α) : FailsOnly E (.ok a) := by
  intro e h
  cases h

theorem failsOnly_error {e : Error} (he : E e) : FailsOnly E (.error e : Outcome α) := by
  intro e' h
  cases h
  exact he

namespace FailsOnly

/-- The errors that are allowed may become more. -/
theorem mono {o : Outcome α} (h : o.FailsOnly E) (hE : ∀ e, E e → E' e) : o.FailsOnly E' := by
  intro e he
  exact hE e (h e he)

theorem ofOperator {o : Outcome α} (h : o.FailsOnly Error.OfOperands) :
    o.FailsOnly Error.OfOperator :=
  h.mono fun _ => Error.OfOperands.ofOperator

/-- Two computations in a row fail only as one of the two does. -/
theorem bind {o : Outcome α} {f : α → Outcome β} (ho : o.FailsOnly E)
    (hf : ∀ a, (f a).FailsOnly E) : (o >>= f).FailsOnly E := by
  cases o with
  | ok a => exact hf a
  | error e => exact failsOnly_error (ho e rfl)

/-- One of two branches, as a verdict says. -/
theorem branch {o : Outcome Bool} {yes no : Outcome β} (ho : o.FailsOnly E)
    (hyes : yes.FailsOnly E) (hno : no.FailsOnly E) :
    (o >>= fun b => if b then yes else no).FailsOnly E := by
  refine ho.bind fun b => ?_
  cases b with
  | true => exact hyes
  | false => exact hno

/-- A list of computations fails only as its items do. -/
theorem mapM {f : α → Outcome β} (hf : ∀ a, (f a).FailsOnly E) (l : List α) :
    (l.mapM f).FailsOnly E := by
  induction l with
  | nil => exact failsOnly_ok []
  | cons a l ih =>
      rw [List.mapM_cons]
      exact (hf a).bind fun b => ih.bind fun bs => failsOnly_ok (b :: bs)

end FailsOnly

end Outcome

open Outcome (FailsOnly failsOnly_ok failsOnly_error)

/-! ## Operators -/

namespace Builtin

variable (op : Op)

theorem failsOnly_literalOf (v : Value) : (literalOf op v).FailsOnly Error.OfOperands := by
  unfold literalOf
  split
  · exact failsOnly_ok _
  · exact failsOnly_error trivial

theorem failsOnly_literalTruth (l : Literal) :
    (literalTruth op l).FailsOnly Error.OfOperands := by
  cases l <;> first | exact failsOnly_ok _ | exact failsOnly_error trivial

/-- A truth value can only be missing because of its operand. -/
theorem failsOnly_truth (v : Value) : (truth op v).FailsOnly Error.OfOperands :=
  (failsOnly_literalOf op v).bind (failsOnly_literalTruth op)

variable (a b : Literal)

theorem failsOnly_arithmetic : (arithmetic op a b).FailsOnly Error.OfOperands := by
  unfold arithmetic mixed
  repeat' split
  all_goals first | exact failsOnly_ok _ | exact failsOnly_error trivial

theorem failsOnly_order : (order op a b).FailsOnly Error.OfOperands := by
  unfold order
  repeat' split
  all_goals first | exact failsOnly_ok _ | exact failsOnly_error trivial

theorem failsOnly_bitwise : (bitwise op a b).FailsOnly Error.OfOperands := by
  unfold bitwise
  split
  all_goals first | exact failsOnly_ok _ | exact failsOnly_error trivial

theorem failsOnly_shift : (shift op a b).FailsOnly Error.OfOperands := by
  unfold shift
  repeat' split
  all_goals first | exact failsOnly_ok _ | exact failsOnly_error trivial

/-- An operator on one literal fails only because of it. -/
theorem failsOnly_unary : (unary op a).FailsOnly Error.OfOperands := by
  unfold unary
  repeat' split
  all_goals first
    | exact failsOnly_ok _
    | exact failsOnly_error trivial
    | exact (failsOnly_literalTruth _ _).bind fun _ => failsOnly_ok _

/-- An operator on two literals fails only because of them. -/
theorem failsOnly_binary : (binary op a b).FailsOnly Error.OfOperands := by
  have htruth (op : Op) (l : Literal) :
      Outcome.FailsOnly Error.OfOperands (do return Literal.bool (← literalTruth op l)) :=
    (failsOnly_literalTruth op l).bind fun _ => failsOnly_ok _
  unfold binary
  split
  all_goals first
    | exact failsOnly_arithmetic _ _ _
    | exact (failsOnly_order _ _ _).bind fun _ => failsOnly_ok _
    | exact failsOnly_ok _
    | exact failsOnly_bitwise _ _ _
    | exact failsOnly_shift _ _ _
    | exact failsOnly_error trivial
    | skip
  -- the two operators whose first operand may decide alone
  · exact (failsOnly_literalTruth _ _).branch (htruth _ _) (failsOnly_ok _)
  · exact (failsOnly_literalTruth _ _).branch (failsOnly_ok _) (htruth _ _)

/-- A wrong number of operands is a failure of the operator. -/
theorem failsOnly_checkCount (callee : String) (expected? : Option Nat) (found : Nat) :
    (checkCount callee expected? found).FailsOnly Error.OfOperator := by
  unfold checkCount
  repeat' split
  all_goals first | exact failsOnly_ok _ | exact failsOnly_error trivial

/-- With operands of the right number, only their values can be at fault. -/
theorem failsOnly_applyCounted (args : List Value) :
    (applyCounted op args).FailsOnly Error.OfOperands := by
  unfold applyCounted
  split
  all_goals first
    | exact failsOnly_ok _
    | exact failsOnly_error trivial
    | skip
  · exact (failsOnly_truth _ _).branch (failsOnly_ok _) (failsOnly_ok _)
  · refine (failsOnly_literalOf _ _).bind fun l => ?_
    exact (failsOnly_unary _ _).bind fun _ => failsOnly_ok _
  · refine (failsOnly_literalOf _ _).bind fun l => ?_
    refine (failsOnly_literalOf _ _).bind fun l' => ?_
    exact (failsOnly_binary _ _ _).bind fun _ => failsOnly_ok _

/-- An operator on values fails because of their number or because of the values. -/
theorem failsOnly_apply (args : List Value) : (apply op args).FailsOnly Error.OfOperator :=
  (failsOnly_checkCount _ _ _).bind fun _ => (failsOnly_applyCounted op args).ofOperator

end Builtin

/-! ## Nodes -/

/-- A node that cannot be built is a failure of the step that builds it. -/
theorem Tree.failsOnly_make (tag : Tag) (cs : List Tree) :
    (Tree.make tag cs).FailsOnly Error.OfStep := by
  unfold Tree.make
  split
  · exact failsOnly_ok _
  · exact failsOnly_error trivial

/-- A child that is missing is a failure of the step that asks for it. -/
theorem Tree.failsOnly_child (t : Tree) (i : Nat) : (t.child i).FailsOnly Error.OfStep := by
  unfold Tree.child
  split
  · exact failsOnly_ok _
  · exact failsOnly_error trivial

/-- A function is no tree, which is a failure of the step that needs one. -/
theorem Value.failsOnly_toTree (v : Value) : v.toTree.FailsOnly Error.OfStep := by
  cases v with
  | lit l => exact failsOnly_ok _
  | node t => exact failsOnly_ok _
  | func f => exact failsOnly_error trivial

theorem Level.failsOnly_makeTree (tag : Tag) (values : List Value) :
    (makeTree tag values).FailsOnly Error.OfStep := by
  unfold makeTree
  split
  · unfold makeLeaf
    repeat' split
    all_goals first | exact failsOnly_ok _ | exact failsOnly_error trivial
  · refine (FailsOnly.mapM Value.failsOnly_toTree values).bind fun cs => ?_
    exact (Tree.failsOnly_make tag cs).bind fun _ => failsOnly_ok _

end TreeGrammar
