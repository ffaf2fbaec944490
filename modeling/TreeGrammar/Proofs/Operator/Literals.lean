import TreeGrammar.Builtin

/-! # Operators at literals — the operands are counted, then read

    An operator counts its operands before it looks at them, and most then take the
    literals of these, each that of a literal or of a leaf.  With the right number of
    literals at hand nothing is left but the meaning of the operator at them. -/

namespace TreeGrammar.Builtin

variable {op : Op} {v w : Value} {a b : Literal}

/-- With the right number of operands the count is not noticed. -/
theorem apply_eq_applyCounted {values : List Value} (hop : op ≠ .terminal)
    (hcount : ∀ n, op.arity? = some n → values.length = n) :
    apply op values = applyCounted op values := by
  have hcheck : checkCount op.name (Func.operands? op) values.length = .ok () := by
    have hoperands : Func.operands? op = op.arity? := by
      cases op <;> first | rfl | exact absurd rfl hop
    rw [hoperands]
    cases harity : op.arity? with
    | none => rfl
    | some n => exact if_pos (hcount n harity).symm
  rw [apply, hcheck]
  rfl

/-- A value with a literal is an operand. -/
theorem literalOf_eq_ok (hv : v.literal? = some a) : literalOf op v = .ok a := by
  rw [literalOf, hv]

/-- An operator of one operand is applied to the literal of the operand. -/
theorem apply_one (hop : op.arity? = some 1) (hv : v.literal? = some a) :
    apply op [v] = Value.lit <$> unary op a := by
  have hliteral : apply op [v] = literalOf op v >>= fun a => Value.lit <$> unary op a := by
    cases op <;> first | rfl | cases hop
  rw [hliteral, literalOf_eq_ok hv]
  rfl

/-- An operator of two operands that has a meaning at literals is applied to those of both. -/
theorem apply_two (hop : op.arity? = some 2) (hmeant : op ∉ [.comma, .assign, .subscript])
    (hv : v.literal? = some a) (hw : w.literal? = some b) :
    apply op [v, w] = Value.lit <$> binary op a b := by
  have hliterals : apply op [v, w] = literalOf op v >>= fun a => literalOf op w >>= fun b =>
      Value.lit <$> binary op a b := by
    cases op <;> first | rfl | cases hop; done | exact absurd (by decide) hmeant
  rw [hliterals, literalOf_eq_ok hv, literalOf_eq_ok hw]
  rfl

end TreeGrammar.Builtin
