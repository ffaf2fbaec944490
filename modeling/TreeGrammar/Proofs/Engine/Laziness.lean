import Mathlib.Data.List.Basic
import TreeGrammar.Proofs.Engine.DepthLimit
import TreeGrammar.Proofs.Engine.Evaluation
import TreeGrammar.Proofs.Failure
import TreeGrammar.Proofs.Operator.Literals
import TreeGrammar.Proofs.Tree.WellFormed

/-! # Laziness — the operators at values, computed as far as they are needed

    Evaluating a tree by its operators gives what the operators give at the values of
    all children, though three of them look at a child only once they need it.  Which
    these are is said by `Builtin.Needs`: the first child always, and after it the one
    that its truth asks for.  The first failure among the children that are needed is
    the outcome, and what the others are makes no difference.

    In a well-formed tree the number of children is never wrong.  So all that evaluation
    can meet is operands of wrong kinds, a division by zero, an overflow and a tag
    without meaning, and what it computes otherwise is a literal. -/

namespace TreeGrammar

/-- The operand that a lazy operator looks at after the first, as the truth of that asks for. -/
def Op.next? : Op → Bool → Option Nat
  | .logicalAnd, true | .logicalOr, false | .ifElse, true => some 1
  | .ifElse, false => some 2
  | _, _ => none

/-- The outcome is a literal, or an error about the operands of an operator. -/
def Outcome.GivesLiteral (o : Outcome Value) : Prop :=
  (∃ l, o = .ok (.lit l)) ∨ ∃ err, o = .error err ∧ err.OfOperands

namespace Outcome.GivesLiteral

theorem ok (l : Literal) : GivesLiteral (.ok (.lit l)) :=
  .inl ⟨l, rfl⟩

/-- The values are literals. -/
theorem of_ok {v : Value} (h : GivesLiteral (.ok v)) : ∃ l, v = .lit l := by
  obtain ⟨l, hl⟩ | ⟨err, herr, -⟩ := h
  · exact ⟨l, Except.ok.inj hl⟩
  · cases herr

theorem error {err : Error} (herr : err.OfOperands) : GivesLiteral (.error err) :=
  .inr ⟨err, rfl, herr⟩

/-- What gives a literal or fails does so because of operands. -/
theorem failsOnly {o : Outcome Value} (h : o.GivesLiteral) : o.FailsOnly Error.OfOperands := by
  rcases h with ⟨l, rfl⟩ | ⟨err, rfl, herr⟩
  · exact failsOnly_ok _
  · exact failsOnly_error herr

theorem bind {α : Type} {o : Outcome α} {f : α → Outcome Value}
    (ho : o.FailsOnly Error.OfOperands) (hf : ∀ a, o = .ok a → (f a).GivesLiteral) :
    (o >>= f).GivesLiteral := by
  cases o with
  | ok a => exact hf a rfl
  | error err => exact error (ho err rfl)

end Outcome.GivesLiteral

namespace Builtin

open Outcome (GivesLiteral)

variable {op : Op} {operands : List (Outcome Value)}

/-- With operands of these outcomes the operator looks at that of this index. -/
inductive Needs (op : Op) (operands : List (Outcome Value)) : Nat → Prop
  | strict (i : Nat) (hop : op.isLazy = false) : Needs op operands i
  | first : Needs op operands 0
  | next {v : Value} {b : Bool} {i : Nat} (hfirst : operands[0]? = some (.ok v))
      (htruth : truth op v = .ok b) (hnext : op.next? b = some i) : Needs op operands i

/-- The outcome of an operand; there may be none of its index. -/
def operand (op : Op) (operands : List (Outcome Value)) (i : Nat) : Outcome Value :=
  operands.getD i (.error (.childOutOfRange (.builtin op) operands.length i))

/-- What a lazy operator gives once it has an operand after the first. -/
def finish (op : Op) (o : Outcome Value) : Outcome Value :=
  if op = .ifElse then o else do return .lit (.bool (← truth op (← o)))

/-- What a lazy operator gives when the truth of its first operand is known. -/
def afterFirst (op : Op) (operands : List (Outcome Value)) (b : Bool) : Outcome Value :=
  match op.next? b with
  | none => .ok (.lit (.bool b))
  | some i => finish op (operand op operands i)

theorem operand_of_getElem? {i : Nat} {o : Outcome Value} (h : operands[i]? = some o) :
    operand op operands i = o := by
  rw [operand, List.getD_eq_getElem?_getD, h, Option.getD_some]

/-- An operand depends on its own place and on how many there are. -/
theorem operand_congr {operands' : List (Outcome Value)} {i : Nat}
    (hlength : operands'.length = operands.length) (h : operands'[i]? = operands[i]?) :
    operand op operands' i = operand op operands i := by
  rw [operand, operand, List.getD_eq_getElem?_getD, List.getD_eq_getElem?_getD, h, hlength]

/-- An operand that is there stands in its place. -/
theorem operand_eq_ok {i : Nat} {v : Value} (h : operand op operands i = .ok v) :
    operands[i]? = some (.ok v) := by
  rw [operand, List.getD_eq_getElem?_getD] at h
  cases hi : operands[i]? with
  | none =>
      rw [hi] at h
      cases h
  | some o =>
      rw [hi] at h
      exact congrArg some h

/-- Behind the first operand, the one that the verdict asks for is looked at. -/
theorem afterFirst_of_next {b : Bool} {i : Nat} (hnext : op.next? b = some i) :
    afterFirst op operands b = finish op (operand op operands i) := by
  rw [afterFirst, hnext]

theorem finish_error (err : Error) : finish op (.error err) = .error err := by
  rw [finish]
  split <;> rfl

/-- The three lazy operators have one shape. -/
theorem lazily_of_isLazy (hop : op.isLazy = true) :
    lazily op operands = (do afterFirst op operands (← truth op (← operand op operands 0))) := by
  cases op <;> first | cases hop; done | skip
  all_goals
    unfold lazily
    simp only [bind_assoc]
    refine bind_congr fun v => bind_congr fun b => ?_
    cases b <;> rfl

/-- The truth of the first operand decides what follows. -/
theorem lazily_of_truth {v : Value} {b : Bool} (hop : op.isLazy = true)
    (hfirst : operands[0]? = some (.ok v)) (htruth : truth op v = .ok b) :
    lazily op operands = afterFirst op operands b := by
  rw [lazily_of_isLazy hop, operand_of_getElem? hfirst]
  show truth op v >>= afterFirst op operands = _
  rw [htruth]
  rfl

/-! ## At values -/

/-- At literals `and` and `or` look at the second in the same way, lazy or not. -/
theorem logical_values (a b : Literal) (hop : op = .logicalAnd ∨ op = .logicalOr) :
    lazily op [.ok (.lit a), .ok (.lit b)] = apply op [.lit a, .lit b] := by
  rcases hop with rfl | rfl
  all_goals
    rw [apply_two rfl (by decide) rfl rfl, lazily_of_isLazy rfl]
    show literalTruth _ a >>= _ = Value.lit <$> (literalTruth _ a >>= _)
    rcases literalTruth _ a with err | _ | _
    · rfl
    all_goals first
      | rfl
      | show literalTruth _ b >>= _ = Value.lit <$> (literalTruth _ b >>= _)
        cases literalTruth _ b <;> rfl

/-- At values an operator is the same whether it is lazy or not. -/
theorem lazily_values {values : List Value} (hliteral : ∀ v ∈ values, ∃ l, v = .lit l)
    (hcount : ∀ n, op.arity? = some n → values.length = n) :
    lazily op (values.map .ok) = apply op values := by
  have hstrict (hop : op.isLazy = false) : lazily op (values.map .ok) = apply op values := by
    rw [lazily_eq_apply hop, List.mapM_map]
    have hall : values.mapM (id ∘ Except.ok) = (.ok (values.map id) : Outcome (List Value)) :=
      Verdict.mapM_eq_ok fun _ _ => rfl
    rw [hall, List.map_id]
    rfl
  have htwo (hop : op = .logicalAnd ∨ op = .logicalOr) (hlength : values.length = 2) :
      lazily op (values.map .ok) = apply op values := by
    obtain ⟨v, w, rfl⟩ := List.length_eq_two.mp hlength
    obtain ⟨a, rfl⟩ := hliteral v List.mem_cons_self
    obtain ⟨b, rfl⟩ := hliteral w (List.mem_cons_of_mem _ List.mem_cons_self)
    exact logical_values a b hop
  cases op with
  | logicalAnd => exact htwo (.inl rfl) (hcount 2 rfl)
  | logicalOr => exact htwo (.inr rfl) (hcount 2 rfl)
  | ifElse =>
      obtain ⟨v, w, x, rfl⟩ := List.length_eq_three.mp (hcount 3 rfl)
      rfl
  | _ => exact hstrict rfl

/-! ## Failures -/

/-- The first failure among the operands that are needed is the outcome. -/
theorem lazily_eq_error {i : Nat} {err : Error} (hneeds : Needs op operands i)
    (herr : operands[i]? = some (.error err))
    (hbefore : ∀ j < i, Needs op operands j → ∃ v, operands[j]? = some (.ok v)) :
    lazily op operands = .error err := by
  cases hop : op.isLazy with
  | false =>
      have hall : operands.mapM id = .error err := by
        refine Verdict.mapM_eq_error herr rfl fun j hj => ?_
        obtain ⟨v, hv⟩ := hbefore j hj (.strict j hop)
        exact ⟨.ok v, v, hv, rfl⟩
      rw [lazily_eq_apply hop, hall]
      rfl
  | true =>
      cases hneeds with
      | strict _ hstrict => cases hop.symm.trans hstrict
      | first =>
          rw [lazily_of_isLazy hop, operand_of_getElem? herr]
          rfl
      | next hfirst htruth hnext =>
          rw [lazily_of_truth hop hfirst htruth, afterFirst_of_next hnext,
            operand_of_getElem? herr, finish_error]

/-- What the operands are that are not needed makes no difference. -/
theorem lazily_congr {operands' : List (Outcome Value)}
    (hlength : operands'.length = operands.length)
    (h : ∀ i, Needs op operands i → operands'[i]? = operands[i]?) :
    lazily op operands' = lazily op operands := by
  cases hop : op.isLazy with
  | false =>
      have hall : operands' = operands := List.ext_getElem? fun i => h i (.strict i hop)
      rw [hall]
  | true =>
      have hfirst : operand op operands' 0 = operand op operands 0 :=
        operand_congr hlength (h 0 .first)
      rw [lazily_of_isLazy hop, lazily_of_isLazy hop, hfirst]
      cases hv : operand op operands 0 with
      | error err => rfl
      | ok v =>
          show truth op v >>= _ = truth op v >>= _
          cases hb : truth op v with
          | error err => rfl
          | ok b =>
              show afterFirst op operands' b = afterFirst op operands b
              cases hnext : op.next? b with
              | none => rw [afterFirst, afterFirst, hnext]
              | some i =>
                  have hneeds : Needs op operands i := .next (operand_eq_ok hv) hb hnext
                  rw [afterFirst_of_next hnext, afterFirst_of_next hnext,
                    operand_congr hlength (h i hneeds)]

/-! ## Literals -/

/-- At literals an operator gives a literal, if it gives a value. -/
theorem givesLiteral_applyCounted {values : List Value}
    (hliteral : ∀ v ∈ values, ∃ l, v = .lit l) : (applyCounted op values).GivesLiteral := by
  have hvalue {v : Value} (hv : v ∈ values) : GivesLiteral (.ok v) := .inl <| by
    obtain ⟨l, rfl⟩ := hliteral v hv
    exact ⟨l, rfl⟩
  unfold applyCounted
  split
  -- three operators hand on an operand, three have no meaning, all others read one or two
  · exact hvalue (by simp)
  · exact hvalue (by simp)
  · refine .bind (failsOnly_truth _ _) fun b _ => ?_
    cases b with
    | true => exact hvalue (by simp)
    | false => exact hvalue (by simp)
  · exact .error trivial
  · exact .error trivial
  · exact .error trivial
  · refine .bind (failsOnly_literalOf _ _) fun a _ => ?_
    exact .bind (failsOnly_unary _ _) fun l _ => .ok l
  · refine .bind (failsOnly_literalOf _ _) fun a _ => ?_
    refine .bind (failsOnly_literalOf _ _) fun b _ => ?_
    exact .bind (failsOnly_binary _ _ _) fun l _ => .ok l
  · exact .error trivial

/-- All operands have values, or one of them is the first that has none. -/
theorem values_or_first_error (operands : List (Outcome Value)) :
    (∃ values : List Value, operands = values.map .ok)
      ∨ ∃ (i : Nat) (err : Error), operands[i]? = some (.error err)
        ∧ ∀ j < i, ∃ v, operands[j]? = some (.ok v) := by
  induction operands with
  | nil => exact .inl ⟨[], rfl⟩
  | cons o operands ih =>
      cases o with
      | error err => exact .inr ⟨0, err, rfl, nofun⟩
      | ok v =>
          rcases ih with ⟨values, rfl⟩ | ⟨i, err, herr, hbefore⟩
          · exact .inl ⟨v :: values, rfl⟩
          · refine .inr ⟨i + 1, err, herr, fun j hj => ?_⟩
            cases j with
            | zero => exact ⟨v, rfl⟩
            | succ j => exact hbefore j (Nat.lt_of_succ_lt_succ hj)

/-- A lazy operator has the operands it may look at. -/
theorem isLazy_arity (hop : op.isLazy = true) :
    ∃ n, op.arity? = some n ∧ 0 < n ∧ ∀ b i, op.next? b = some i → i < n := by
  have hnext (n : Nat) (h : ∀ b, ∀ i ∈ op.next? b, i < n) (b : Bool) (i : Nat)
      (hi : op.next? b = some i) : i < n := h b i hi
  cases op <;> first | cases hop; done | skip
  · exact ⟨2, rfl, by decide, hnext 2 (by decide)⟩
  · exact ⟨2, rfl, by decide, hnext 2 (by decide)⟩
  · exact ⟨3, rfl, by decide, hnext 3 (by decide)⟩

/-- At as many operands as it takes, all of which give literals, an operator gives one as well. -/
theorem givesLiteral_lazily (hop : op ≠ .terminal)
    (hcount : ∀ n, op.arity? = some n → operands.length = n)
    (h : ∀ o ∈ operands, o.GivesLiteral) : (lazily op operands).GivesLiteral := by
  cases hlazy : op.isLazy with
  | false =>
      rcases values_or_first_error operands with ⟨values, rfl⟩ | ⟨i, err, herr, hbefore⟩
      · have hliteral : ∀ v ∈ values, ∃ l, v = .lit l := fun v hv =>
          (h (.ok v) (List.mem_map_of_mem hv)).of_ok
        have hlength : ∀ n, op.arity? = some n → values.length = n := by
          intro n hn
          rw [← hcount n hn, List.length_map]
        rw [lazily_values hliteral hlength, apply_eq_applyCounted hop hlength]
        exact givesLiteral_applyCounted hliteral
      · rw [lazily_eq_error (.strict i hlazy) herr fun j hj _ => hbefore j hj]
        exact h _ (List.mem_of_getElem? herr)
  | true =>
      obtain ⟨n, harity, hpos, hnext⟩ := isLazy_arity hlazy
      have hoperand {i : Nat} (hi : i < n) : (operand op operands i).GivesLiteral := by
        rw [← hcount n harity] at hi
        rw [operand_of_getElem? (List.getElem?_eq_getElem hi)]
        exact h _ (List.getElem_mem hi)
      rw [lazily_of_isLazy hlazy]
      refine .bind (hoperand hpos).failsOnly fun v _ => .bind (failsOnly_truth op v) fun b _ => ?_
      cases hb : op.next? b with
      | none =>
          rw [afterFirst, hb]
          exact .ok (.bool b)
      | some i =>
          rw [afterFirst_of_next hb, finish]
          split
          · exact hoperand (hnext b i hb)
          · refine .bind (hoperand (hnext b i hb)).failsOnly fun w _ => ?_
            exact .bind (failsOnly_truth op w) fun c _ => .ok (.bool c)

end Builtin

/-- The meaning of a well-formed tree is a literal, unless it fails. -/
theorem Tree.WellFormed.givesLiteral_meaning {t : Tree} (ht : t.WellFormed) :
    t.meaning.GivesLiteral := by
  induction t using Tree.induction_on_children with
  | step t ih =>
      match t with
      | .leaf v => exact .ok v
      | .node (.user name) cs => exact .error trivial
      | .node (.builtin op) cs =>
          rw [Tree.meaning_node]
          refine Builtin.givesLiteral_lazily ?_ ?_ ?_
          · rintro rfl
            cases (wellFormed_node_iff.mp ht).1
          · intro n hn
            rw [List.length_map]
            exact ht.length_eq hn
          · intro o ho
            obtain ⟨c, hc, rfl⟩ := List.mem_map.mp ho
            exact ih c hc (ht.of_mem_children hc)

namespace Engine

/-- The outcome of evaluating a tree by its operators. -/
def evaluated (e : Engine Outcome) (state data : Value) (t : Tree) : Outcome Value :=
  e.apply t state data (.evaluate none)

variable {e : Engine Outcome}

/-- The children of a node within the limit have their meaning as well as the node. -/
theorem map_evaluated {tag : Tag} {cs : List Tree} (state data : Value)
    (hdepth : (Tree.node tag cs).depth < e.config.maxDepth) :
    cs.map (e.evaluated state data) = cs.map Tree.meaning := by
  refine List.map_congr_left fun c hc => e.apply_evaluate ?_ state data
  have hlt : c.depth < (Tree.node tag cs).depth := Tree.depth_lt_of_mem_children hc
  omega

/-- So is what the engine evaluates. -/
theorem givesLiteral_evaluated {t : Tree} (ht : t.WellFormed)
    (hdepth : t.depth < e.config.maxDepth) (state data : Value) :
    (e.evaluated state data t).GivesLiteral := by
  have hmeaning : e.evaluated state data t = t.meaning := e.apply_evaluate hdepth state data
  rw [hmeaning]
  exact ht.givesLiteral_meaning

/-- What the engine evaluates at a node is its operator on what it evaluates at the children. -/
theorem evaluated_node {op : Op} {cs : List Tree} (state data : Value)
    (hdepth : (Tree.node (.builtin op) cs).depth < e.config.maxDepth) :
    e.evaluated state data (.node (.builtin op) cs)
      = Builtin.lazily op (cs.map (e.evaluated state data)) := by
  rw [map_evaluated state data hdepth, ← Tree.meaning_node]
  exact e.apply_evaluate hdepth state data

/-- Evaluating a well-formed tree within the limit gives a literal or an error about operands.
At a node it gives what the operator gives at the values of the children, or the first failure
of a child that is needed, whatever the children are that are not. -/
theorem lazy_evaluation (e : Engine Outcome) {t : Tree} (ht : t.WellFormed)
    (hdepth : t.depth < e.config.maxDepth) (state data : Value) :
    (e.evaluated state data t).GivesLiteral
      ∧ ∀ op cs, t = .node (.builtin op) cs →
        (∀ values, cs.map (e.evaluated state data) = values.map .ok →
          e.evaluated state data t = Builtin.apply op values)
        ∧ (∀ i err, Builtin.Needs op (cs.map (e.evaluated state data)) i →
          (cs.map (e.evaluated state data))[i]? = some (.error err) →
          (∀ j < i, Builtin.Needs op (cs.map (e.evaluated state data)) j →
            ∃ v, (cs.map (e.evaluated state data))[j]? = some (.ok v)) →
          e.evaluated state data t = .error err)
        ∧ ∀ cs', cs'.length = cs.length →
          (Tree.node (.builtin op) cs').depth < e.config.maxDepth →
          (∀ i, Builtin.Needs op (cs.map (e.evaluated state data)) i →
            (cs'.map (e.evaluated state data))[i]? = (cs.map (e.evaluated state data))[i]?) →
          e.evaluated state data (.node (.builtin op) cs') = e.evaluated state data t := by
  refine ⟨givesLiteral_evaluated ht hdepth state data, ?_⟩
  rintro op cs rfl
  rw [evaluated_node state data hdepth]
  refine ⟨?values, ?failure, ?laziness⟩
  case values =>
    intro values hvalues
    have hliteral : ∀ v ∈ values, ∃ l, v = .lit l := by
      intro v hv
      have hmem : .ok v ∈ cs.map (e.evaluated state data) := hvalues ▸ List.mem_map_of_mem hv
      obtain ⟨c, hc, hv⟩ := List.mem_map.mp hmem
      have hlt : c.depth < (Tree.node (.builtin op) cs).depth := Tree.depth_lt_of_mem_children hc
      have hchild : (e.evaluated state data c).GivesLiteral :=
        givesLiteral_evaluated (ht.of_mem_children hc) (Nat.lt_trans hlt hdepth) state data
      rw [hv] at hchild
      exact hchild.of_ok
    have hlength : values.length = cs.length := by
      have hlengths := congrArg List.length hvalues
      rw [List.length_map, List.length_map] at hlengths
      exact hlengths.symm
    rw [hvalues]
    exact Builtin.lazily_values hliteral fun n hn => hlength.trans (ht.length_eq hn)
  case failure =>
    intro i err hneeds herr hbefore
    exact Builtin.lazily_eq_error hneeds herr hbefore
  case laziness =>
    intro cs' hlength hdepth' hsame
    rw [evaluated_node state data hdepth']
    exact Builtin.lazily_congr (by rw [List.length_map, List.length_map, hlength]) hsame

/-- Either zero or one by zero: the first operand asks for the second, and that fails. -/
theorem lazy_evaluation_or :
    ∃ t : Tree, t.WellFormed ∧ t.depth < 4
      ∧ (under (.constant .unit) .pattern 4).evaluated .unit .unit t
        = .error (.divisionByZero Op.divides.name) := by
  refine ⟨.node (.builtin .logicalOr) [.leaf (.int 0),
    .node (.builtin .divides) [.leaf (.int 1), .leaf (.int 0)]], by decide, by decide, ?_⟩
  obtain ⟨-, hnode⟩ := lazy_evaluation (under (.constant .unit) .pattern 4)
    (t := .node (.builtin .logicalOr) [.leaf (.int 0),
      .node (.builtin .divides) [.leaf (.int 1), .leaf (.int 0)]])
    (by decide) (by decide) .unit .unit
  obtain ⟨-, hfailure, -⟩ := hnode _ _ rfl
  refine hfailure 1 _ (.next (v := .lit (.int 0)) (b := false) rfl rfl rfl) rfl ?_
  intro j hj _
  obtain rfl : j = 0 := by omega
  exact ⟨_, rfl⟩

end Engine

end TreeGrammar
