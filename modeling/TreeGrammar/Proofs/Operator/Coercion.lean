import Mathlib.Data.List.Forall2
import TreeGrammar.Proofs.Operator.Literals

/-! # Coercion — a leaf as an operand is the literal it holds

    An operator reads an operand through `Value.literal?`, which is the same for a
    literal and for the leaf that holds it.  Some operators hand an operand on as it is,
    but then the literal of the result is that of the operand.  So with leaves in the
    place of literals an operator fails with the same error or gives a value of the same
    literal, whatever the number of operands and whatever else is among them. -/

namespace TreeGrammar

/-- The second value is the first one, or the leaf that holds it. -/
inductive Value.Promoted : Value → Value → Prop
  | same (v : Value) : Promoted v v
  | leaf (l : Literal) : Promoted (.lit l) (.node (.leaf l))

/-- The literal of the value that was computed, if it has one, or the error. -/
def Outcome.read (o : Outcome Value) : Outcome (Option Literal) :=
  Value.literal? <$> o

/-- The operators that have no meaning at any operands. -/
def Op.isMeaningless : Op → Bool
  | .assign | .subscript | .function => true
  | _ => false

namespace Builtin

variable {op : Op} {v w x : Value} {args args' : List Value}

/-! ## What is read of the operands -/

/-- What an operator makes of one operand. -/
theorem read_applyCounted_one : (applyCounted op [v]).read
    = if op = .terminal then .ok v.literal?
      else if op.isMeaningless then .error (.noDefault (.builtin op))
      else do return some (← unary op (← literalOf op v)) := by
  have hunary (op : Op) : Outcome.read (do return .lit (← unary op (← literalOf op v)))
      = do return some (← unary op (← literalOf op v)) := by
    rcases literalOf op v with err | a
    · rfl
    · show Outcome.read (unary op a >>= _) = unary op a >>= _
      cases unary op a <;> rfl
  cases op <;> first | rfl | exact hunary _

/-- What an operator makes of two operands. -/
theorem read_applyCounted_two : (applyCounted op [v, w]).read
    = if op = .comma then .ok w.literal?
      else if op.isMeaningless then .error (.noDefault (.builtin op))
      else do return some (← binary op (← literalOf op v) (← literalOf op w)) := by
  have hbinary (op : Op) :
      Outcome.read (do return .lit (← binary op (← literalOf op v) (← literalOf op w)))
        = do return some (← binary op (← literalOf op v) (← literalOf op w)) := by
    rcases literalOf op v with err | a
    · rfl
    rcases literalOf op w with err | b
    · rfl
    · show Outcome.read (binary op a b >>= _) = binary op a b >>= _
      cases binary op a b <;> rfl
  cases op <;> first | rfl | exact hbinary _

/-- Only the conditional makes something of three operands. -/
theorem read_applyCounted_three : (applyCounted op [v, w, x]).read
    = if op = .ifElse then do return if ← truth op v then w.literal? else x.literal?
      else .error (.noDefault (.builtin op)) := by
  have hbranch : Outcome.read (do if ← truth .ifElse v then return w else return x)
      = do return if ← truth .ifElse v then w.literal? else x.literal? := by
    rcases truth .ifElse v with err | _ | _ <;> rfl
  cases op <;> first | rfl | exact hbranch

/-- No operator takes more than three operands. -/
theorem applyCounted_more {y : Value} : applyCounted op (v :: w :: x :: y :: args)
    = .error (.noDefault (.builtin op)) := by
  cases op <;> rfl

/-! ## Leaves in the place of literals -/

/-- A literal and the leaf that holds it have the same literal. -/
theorem literal?_promoted (h : v.Promoted w) : v.literal? = w.literal? := by
  cases h <;> rfl

theorem literalOf_promoted (h : v.Promoted w) : literalOf op v = literalOf op w := by
  cases h <;> rfl

theorem truth_promoted (h : v.Promoted w) : truth op v = truth op w := by
  rw [truth, truth, literalOf_promoted h]

/-- Read as literals, the results of promoted operands are the same. -/
theorem read_applyCounted_promoted (h : List.Forall₂ Value.Promoted args args') :
    (applyCounted op args).read = (applyCounted op args').read := by
  obtain _ | ⟨hv, _ | ⟨hw, _ | ⟨hx, _ | _⟩⟩⟩ := h
  · rfl
  · rw [read_applyCounted_one, read_applyCounted_one, literal?_promoted hv,
      literalOf_promoted hv]
  · rw [read_applyCounted_two, read_applyCounted_two, literal?_promoted hw,
      literalOf_promoted hv, literalOf_promoted hw]
  · rw [read_applyCounted_three, read_applyCounted_three, truth_promoted hv,
      literal?_promoted hw, literal?_promoted hx]
  · rw [applyCounted_more, applyCounted_more]

/-- An operator cannot tell literals from leaves that hold them. -/
theorem read_apply_promoted (h : List.Forall₂ Value.Promoted args args') :
    (apply op args).read = (apply op args').read := by
  rw [apply, apply, h.length_eq]
  cases checkCount op.name (Func.operands? op) args'.length with
  | error err => rfl
  | ok _ => exact read_applyCounted_promoted h

end Builtin

end TreeGrammar
