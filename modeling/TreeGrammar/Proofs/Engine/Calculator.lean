import TreeGrammar.Proofs.Engine.Evaluation
import TreeGrammar.Proofs.Engine.Meaning
import TreeGrammar.Proofs.Tree.WellFormed

/-! # The calculator — a grammar that computes what operators mean

    A calculator is a switch over integers, operators with two operands and negation.
    Its patterns say `recurse` for the operands, so it accepts the trees that are made
    of these all the way down, and its bodies run the calculator on the operands again.
    The result is the meaning of the tree, and every other tree is refused at the root.

    Matching takes three steps for each level of the tree, the body of a case up to
    four: negation, its operator, `recurse` and the calculator. -/

namespace TreeGrammar

/-- The function of an operator is the operator; it counts its arguments twice. -/
theorem Func.invoke_ofOp (lib : Library Outcome) (op : Op) (identity : Nat) (args : List Value) :
    (Func.ofOp op identity).invoke lib args = Builtin.apply op args := by
  show (Outcome.lift (Builtin.checkCount op.name (operands? op) args.length) : Outcome Unit)
    >>= (fun _ => Outcome.lift (Builtin.apply op args)) = _
  rw [Outcome.lift_eq, Outcome.lift_eq, Builtin.apply]
  cases Builtin.checkCount op.name (operands? op) args.length <;> rfl

namespace Calculator

/-- An integer is its value. -/
def integer : Case :=
  (Grammar.terminal (some .int)).runs .value

/-- An operator is called on what its two operands are calculated to be. -/
def operation (op : Op) (identity : Nat) : Case :=
  (Grammar.node (some (.builtin op)) [.recurse, .recurse]).calls
    (.constant (.func (.ofOp op identity)))
    [.invoke .recurse (.child 0) none none, .invoke .recurse (.child 1) none none]

/-- Negation is evaluated, its operand being calculated. -/
def negation : Case :=
  (Grammar.node (some (.builtin .negate)) [.recurse]).runs (.evaluate (some .recurse))

/-- The cases of the calculator with these operators, each made a function of its own. -/
def cases (ops : List Op) (identity : Op → Nat) : List Case :=
  integer :: (ops.map fun op => operation op (identity op)) ++ [negation]

end Calculator

/-- The calculator with these operators. -/
def Grammar.calculator (ops : List Op) (identity : Op → Nat) : Grammar :=
  .switch (Calculator.cases ops identity)

mutual
/-- Whether the tree is made of integers, negation and these operators. -/
def Tree.isArithmetic (ops : List Op) : Tree → Bool
  | .leaf v => v.kind == .int
  | .node (.builtin op) cs => (op == .negate || ops.contains op) && Tree.areArithmetic ops cs
  | .node (.user _) _ => false
/-- Whether all trees of a list are made of integers, negation and these operators. -/
def Tree.areArithmetic (ops : List Op) : List Tree → Bool
  | [] => true
  | c :: cs => c.isArithmetic ops && Tree.areArithmetic ops cs
end

theorem Tree.areArithmetic_iff {ops : List Op} {cs : List Tree} :
    areArithmetic ops cs = true ↔ ∀ c ∈ cs, c.isArithmetic ops = true := by
  induction cs with
  | nil => exact ⟨nofun, fun _ => rfl⟩
  | cons c cs ih =>
      rw [List.forall_mem_cons, ← ih]
      exact Bool.and_eq_true_iff

/-- A well-formed tree is arithmetic if it is an integer, or a known operator over two arithmetic
trees, or a negation over one. -/
theorem Tree.isArithmetic_iff {ops : List Op} (hops : ∀ op ∈ ops, op.arity? = some 2) {t : Tree}
    (ht : t.WellFormed) : t.isArithmetic ops = true ↔ (∃ n, t = .leaf (.int n))
      ∨ (∃ op ∈ ops, ∃ a b, t = .node (.builtin op) [a, b]
        ∧ a.isArithmetic ops = true ∧ b.isArithmetic ops = true)
      ∨ ∃ a, t = .node (.builtin .negate) [a] ∧ a.isArithmetic ops = true := by
  constructor
  · intro h
    match t, ht, h with
    | .leaf (.int n), _, _ => exact Or.inl ⟨n, rfl⟩
    | .node (.builtin op) cs, ht, h =>
        obtain ⟨hop, hcs⟩ := Bool.and_eq_true_iff.mp h
        have hchild := areArithmetic_iff.mp hcs
        obtain hnegate | hmem := Bool.or_eq_true_iff.mp hop
        · obtain rfl : op = .negate := beq_iff_eq.mp hnegate
          obtain ⟨a, rfl⟩ := List.length_eq_one_iff.mp (ht.length_eq rfl)
          exact Or.inr (Or.inr ⟨a, rfl, hchild a (by simp)⟩)
        · have hmem : op ∈ ops := List.contains_iff_mem.mp hmem
          match cs, ht.length_eq (hops op hmem), hchild with
          | [a, b], _, hchild =>
              exact Or.inr (Or.inl ⟨op, hmem, a, b, rfl, hchild a (by simp), hchild b (by simp)⟩)
  · rintro (⟨n, rfl⟩ | ⟨op, hop, a, b, rfl, ha, hb⟩ | ⟨a, rfl, ha⟩)
    · rfl
    · simp [isArithmetic, areArithmetic, hop, ha, hb]
    · simp [isArithmetic, areArithmetic, ha]

namespace Calculator

variable {ops : List Op} {identity : Op → Nat} {again : Tree → Bool} {t : Tree} {c : Case}

/-- The cases of a calculator: an integer, its operations, and a sign in front. -/
theorem mem_cases : c ∈ cases ops identity
    ↔ c = integer ∨ (∃ op ∈ ops, c = operation op (identity op)) ∨ c = negation := by
  simp [cases, eq_comm]

/-! ## What the patterns say -/

/-- The first case accepts the integers. -/
theorem reading_integer :
    integer.pattern.readingIn again t = true ↔ ∃ n, t = .leaf (.int n) := by
  cases t with
  | node tag cs => exact ⟨nofun, nofun⟩
  | leaf v => cases v <;> simp [integer, Grammar.runs, Grammar.readingIn, Grammar.holds,
      Literal.kind]

/-- The case of an operator accepts its nodes over two trees that the calculator accepts. -/
theorem reading_operation {op : Op} {n : Nat} : (operation op n).pattern.readingIn again t = true
    ↔ ∃ a b, t = .node (.builtin op) [a, b] ∧ again a = true ∧ again b = true :=
  Grammar.readingIn_node_pair

/-- The last case accepts a sign in front of a tree that the calculator accepts. -/
theorem reading_negation : negation.pattern.readingIn again t = true
    ↔ ∃ a, t = .node (.builtin .negate) [a] ∧ again a = true :=
  Grammar.readingIn_node_singleton

/-- No pattern of a calculator has a condition. -/
theorem isUnconditional_calculator : (Grammar.calculator ops identity).isUnconditional = true := by
  show Grammar.casesUnconditional (cases ops identity) = true
  rw [Grammar.casesUnconditional_eq, List.all_map, List.all_eq_true]
  intro c hc
  obtain rfl | ⟨op, -, rfl⟩ | rfl := mem_cases.mp hc <;> rfl

/-- A calculator asks for itself only below a node. -/
theorem isGuarded_calculator : (Grammar.calculator ops identity).isGuarded = true := by
  show Grammar.casesGuarded (cases ops identity) = true
  rw [Grammar.casesGuarded_eq, List.all_map, List.all_eq_true]
  intro c hc
  obtain rfl | ⟨op, -, rfl⟩ | rfl := mem_cases.mp hc <;> rfl

/-- The calculator accepts what a pattern of its cases is read to accept. -/
theorem reading_calculator : (Grammar.calculator ops identity).reading t = true
    ↔ ∃ c ∈ cases ops identity,
      c.pattern.readingIn (Grammar.calculator ops identity).reading t = true := by
  rw [Grammar.reading_eq isGuarded_calculator]
  show (Grammar.caseReadingsIn _ (cases ops identity)).any (· t) = true ↔ _
  rw [Grammar.caseReadingsIn_eq, List.any_map, List.any_eq_true]
  rfl

/-- What a calculator accepts is built from integers by its operators and signs. -/
theorem reading_calculator_iff : (Grammar.calculator ops identity).reading t = true
    ↔ (∃ n, t = .leaf (.int n))
      ∨ (∃ op ∈ ops, ∃ a b, t = .node (.builtin op) [a, b]
        ∧ (Grammar.calculator ops identity).reading a = true
        ∧ (Grammar.calculator ops identity).reading b = true)
      ∨ ∃ a, t = .node (.builtin .negate) [a]
        ∧ (Grammar.calculator ops identity).reading a = true := by
  rw [reading_calculator]
  constructor
  · rintro ⟨c, hc, hread⟩
    obtain rfl | ⟨op, hop, rfl⟩ | rfl := mem_cases.mp hc
    · exact Or.inl (reading_integer.mp hread)
    · exact Or.inr (Or.inl ⟨op, hop, reading_operation.mp hread⟩)
    · exact Or.inr (Or.inr (reading_negation.mp hread))
  · rintro (h | ⟨op, hop, h⟩ | h)
    · exact ⟨integer, mem_cases.mpr (Or.inl rfl), reading_integer.mpr h⟩
    · exact ⟨operation op (identity op), mem_cases.mpr (Or.inr (Or.inl ⟨op, hop, rfl⟩)),
        reading_operation.mpr h⟩
    · exact ⟨negation, mem_cases.mpr (Or.inr (Or.inr rfl)), reading_negation.mpr h⟩

/-- Among well-formed trees the calculator accepts the arithmetic ones. -/
theorem reading_eq_isArithmetic (hops : ∀ op ∈ ops, op.arity? = some 2) (ht : t.WellFormed) :
    (Grammar.calculator ops identity).reading t = t.isArithmetic ops := by
  induction t using Tree.induction_on_children with
  | step t ih =>
      have hchild : ∀ c ∈ t.children,
          (Grammar.calculator ops identity).reading c = c.isArithmetic ops :=
        fun c hc => ih c hc (ht.of_mem_children hc)
      rw [Bool.eq_iff_iff, reading_calculator_iff, Tree.isArithmetic_iff hops ht]
      refine or_congr Iff.rfl (or_congr ?_ ?_)
      · refine exists_congr fun op => and_congr_right fun _ => exists₂_congr fun a b =>
          and_congr_right ?_
        rintro rfl
        rw [hchild a (by simp [Tree.children]), hchild b (by simp [Tree.children])]
      · refine exists_congr fun a => and_congr_right ?_
        rintro rfl
        rw [hchild a (by simp [Tree.children])]

/-- Matching takes three steps for each level of a tree. -/
theorem height_calculator : (Grammar.calculator ops identity).height ≤ 3 := by
  have hpatterns : Grammar.heights ((cases ops identity).map Case.pattern) ≤ 2 := by
    refine Grammar.heights_le_of (List.forall_mem_map.mpr fun c hc => ?_)
    obtain rfl | ⟨op, -, rfl⟩ | rfl := mem_cases.mp hc
    · exact Nat.le_succ 1
    · exact Nat.le_refl 2
    · exact Nat.le_refl 2
  show 1 + Grammar.caseHeights (cases ops identity) ≤ 3
  rw [Grammar.caseHeights_eq]
  omega

/-! ## What the bodies compute -/

variable {e : Engine Outcome} {g : Grammar} {a b : Tree} {state data : Value} {n : Nat}

/-- An operator is called on the outcomes of its operands, each of which is two steps below. -/
theorem caseStep_operation {op : Op} (hop : op.isLazy = false) (k : Nat)
    (ha : (e.level (n + 1)).transform ⟨some g, a, state, data⟩ g = a.meaning)
    (hb : (e.level (n + 1)).transform ⟨some g, b, state, data⟩ g = b.meaning) :
    Level.caseStep (e.level (n + 3)) e.library ⟨some g, .node (.builtin op) [a, b], state, data⟩
        (operation op k) = (Tree.node (.builtin op) [a, b]).meaning := by
  have hargs : [Action.invoke .recurse (.child 0) none none,
      .invoke .recurse (.child 1) none none].mapM
        ((e.level (n + 3)).apply ⟨some g, .node (.builtin op) [a, b], state, data⟩)
      = [a.meaning, b.meaning].mapM id := by
    rw [← ha, ← hb]
    simp only [List.mapM_cons, List.mapM_nil]
    rfl
  rw [Tree.meaning_node, List.map_cons, List.map_cons, List.map_nil,
    Builtin.lazily_eq_apply hop, ← hargs]
  show _ >>= (fun args => (Func.ofOp op k).invoke e.library args) = _
  simp only [Func.invoke_ofOp]

/-- Negation is evaluated at the outcome of its operand, which is three steps below. -/
theorem caseStep_negation
    (ha : (e.level n).transform ⟨some g, a, state, data⟩ g = a.meaning) :
    Level.caseStep (e.level (n + 3)) e.library
        ⟨some g, .node (.builtin .negate) [a], state, data⟩ negation
      = (Tree.node (.builtin .negate) [a]).meaning := by
  rw [Tree.meaning_node]
  refine Level.operatorValue_eq_lazily
    (s := ⟨some g, .node (.builtin .negate) [a], state, data⟩) rfl fun c hc => ?_
  obtain rfl := List.mem_singleton.mp hc
  exact ha

/-- Four steps for each level of a tree that the calculator accepts are enough to compute what it
means; at its root it refuses any other tree. -/
theorem transform_calculator (hops : ∀ op ∈ ops, op.isLazy = false) (hdepth : 4 * t.depth ≤ n) :
    (e.level n).transform ⟨some (.calculator ops identity), t, state, data⟩
      (.calculator ops identity)
      = if (Grammar.calculator ops identity).reading t then t.meaning
        else .error (Level.noMatch t) := by
  induction t using Tree.induction_on_children generalizing n with
  | step t ih =>
      have hpos := t.depth_pos
      obtain ⟨m, rfl⟩ : ∃ m, n = m + 4 := ⟨n - 4, by omega⟩
      have hoperand : ∀ c ∈ t.children, (Grammar.calculator ops identity).reading c = true →
          ∀ k ≥ m, (e.level k).transform ⟨some (.calculator ops identity), c, state, data⟩
            (.calculator ops identity) = c.meaning := by
        intro c hc hread k hk
        have hlt := Tree.depth_lt_of_mem_children hc
        rw [ih c hc (by omega), if_pos hread]
      have hsteps : t.depth * (Grammar.calculator ops identity).height ≤ m + 3 + 1 := by
        have hheight : (Grammar.calculator ops identity).height ≤ 3 := height_calculator
        have hproduct := Nat.mul_le_mul_left t.depth hheight
        omega
      have hrun := e.transform_switch isUnconditional_calculator isGuarded_calculator hsteps state
        data
      refine hrun.trans ?_
      split
      · next c hfind =>
          have hc : c ∈ cases ops identity := List.mem_of_find?_eq_some hfind
          have hread := List.find?_some hfind
          rw [if_pos (reading_calculator.mpr ⟨c, hc, hread⟩)]
          obtain rfl | ⟨op, hop, rfl⟩ | rfl := mem_cases.mp hc
          · obtain ⟨k, rfl⟩ := reading_integer.mp hread
            rfl
          · obtain ⟨a, b, rfl, ha, hb⟩ := reading_operation.mp hread
            exact caseStep_operation (hops op hop) _
              (hoperand a (by simp [Tree.children]) ha (m + 1) (Nat.le_succ m))
              (hoperand b (by simp [Tree.children]) hb (m + 1) (Nat.le_succ m))
          · obtain ⟨a, rfl, ha⟩ := reading_negation.mp hread
            exact caseStep_negation (hoperand a (by simp [Tree.children]) ha m (Nat.le_refl m))
      · next hfind =>
          have hrejected : (Grammar.calculator ops identity).reading t ≠ true := by
            intro hread
            obtain ⟨c, hc, hcase⟩ := reading_calculator.mp hread
            exact List.find?_eq_none.mp hfind c hc hcase
          rw [if_neg hrejected]

end Calculator

namespace Engine

/-- With four steps for each level of a tree the calculator computes of arithmetic what evaluating
it gives, value or error, and refuses every other tree at its root. -/
theorem calculator_evaluates (e : Engine Outcome) {ops : List Op}
    (hops : ∀ op ∈ ops, op.arity? = some 2 ∧ op ≠ .logicalAnd ∧ op ≠ .logicalOr)
    (identity : Op → Nat) {t : Tree} (ht : t.WellFormed)
    (hdepth : 4 * t.depth ≤ e.config.maxDepth) (state data : Value) :
    e.transform t state data (.calculator ops identity)
      = if t.isArithmetic ops then e.apply t state data (.evaluate none)
        else .error (.noMatch t.tag t.arity) := by
  have hpos := t.depth_pos
  have hlazy : ∀ op ∈ ops, op.isLazy = false := by
    intro op hop
    obtain ⟨harity, hand, hor⟩ := hops op hop
    cases op <;> first | rfl | contradiction
  have hreading : (Grammar.calculator ops identity).reading t = t.isArithmetic ops :=
    Calculator.reading_eq_isArithmetic (fun op hop => (hops op hop).1) ht
  rw [e.apply_evaluate (by omega), ← hreading]
  exact Calculator.transform_calculator hlazy hdepth

/-- A difference with a negation in it, a sum that overflows below a difference, and a remainder
that the calculator does not know. -/
theorem calculator_evaluates_or_refuses :
    (under (.constant .unit) .pattern 16).transform
        (.node (.builtin .minus) [.leaf (.int 1),
          .node (.builtin .negate) [.node (.builtin .plus) [.leaf (.int 2), .leaf (.int 3)]]])
        .unit .unit (.calculator [.plus, .minus] fun _ => 0) = .ok (.lit (.int 6))
      ∧ (under (.constant .unit) .pattern 12).transform
          (.node (.builtin .minus) [.node (.builtin .plus)
            [.leaf (.int 9223372036854775807), .leaf (.int 1)], .leaf (.int 1)])
          .unit .unit (.calculator [.plus, .minus] fun _ => 0) = .error (.overflow "plus")
      ∧ (under (.constant .unit) .pattern 12).transform
          (.node (.builtin .plus) [.leaf (.int 1), .node (.builtin .modulus)
            [.leaf (.int 4), .leaf (.int 2)]])
          .unit .unit (.calculator [.plus, .minus] fun _ => 0)
        = .error (.noMatch (.builtin .plus) 2) := by
  have hops : ∀ op ∈ [Op.plus, .minus],
      op.arity? = some 2 ∧ op ≠ .logicalAnd ∧ op ≠ .logicalOr := by decide
  refine ⟨?_, ?_, ?_⟩
  · exact (calculator_evaluates _ hops _ (by decide) (by decide) _ _).trans rfl
  · exact (calculator_evaluates _ hops _ (by decide) (by decide) _ _).trans rfl
  · exact (calculator_evaluates _ hops _ (by decide) (by decide) _ _).trans rfl

end Engine

end TreeGrammar
