import TreeGrammar.Proofs.Number.Integral
import TreeGrammar.Proofs.Number.Order
import TreeGrammar.Proofs.Operator.Literals
import TreeGrammar.Proofs.Tree.Equality

/-! # Comparison — ordering and equality say the same

    Ordering and equality are decided apart: integers are compared exactly and as doubles
    beside one, strings and truth values are ordered, and any two literals may be equal.
    Where there is an order, `Ordered` says what is known of it in both directions and of
    equality, and the five operators are five readings of it.  Where there is none
    because of a NaN, nothing holds, and literals of other kinds are not ordered at all. -/

namespace TreeGrammar

namespace Literal

/-- Holds of integers and doubles. -/
def isNumber : Literal → Bool
  | .int _ | .float _ => true
  | _ => false

/-- Both are numbers, both strings or both truth values. -/
def Comparable (a b : Literal) : Prop :=
  (a.isNumber = true ∧ b.isNumber = true) ∨ (a.kind = .str ∧ b.kind = .str)
    ∨ (a.kind = .bool ∧ b.kind = .bool)

instance (a b : Literal) : Decidable (a.Comparable b) :=
  inferInstanceAs (Decidable (_ ∨ _ ∨ _))

end Literal

/-- The ordering operator that says the same with its operands exchanged. -/
def Op.converse : Op → Op
  | .less => .greater
  | .lessEqual => .greaterEqual
  | .greater => .less
  | .greaterEqual => .lessEqual
  | op => op

namespace Builtin

variable {op : Op} {a b : Literal} {o : Option Ordering}

/-- Two literals are in this order, or in none because of a NaN. -/
structure Ordered (a b : Literal) (o : Option Ordering) : Prop where
  forth : ∀ op, order op a b = .ok o
  back : ∀ op, order op b a = .ok (o.map Ordering.swap)
  equal : equalTo a b = (o == some .eq)
  unordered : o = none ↔ a.isNaN = true ∨ b.isNaN = true

/-- Literals whose order is that of doubles. -/
theorem ordered_floats {x y : Float} (forth : ∀ op, order op a b = .ok (Number.compare? x y))
    (back : ∀ op, order op b a = .ok (Number.compare? y x)) (equal : equalTo a b = (x == y))
    (ha : a.isNaN = x.isNaN) (hb : b.isNaN = y.isNaN) : ∃ o, Ordered a b o := by
  refine ⟨Number.compare? x y, forth, fun op => ?_, ?_, ?_⟩
  · rw [back, Number.compare?_swap]
  · rw [equal, Number.beq_eq_compare?]
  · rw [ha, hb, Number.compare?_eq_none]

/-- Literals whose order is never missing. -/
theorem ordered_total {α : Type} [Ord α] [Std.OrientedOrd α] [Std.LawfulEqOrd α] {x y : α}
    (forth : ∀ op, order op a b = .ok (some (compare x y)))
    (back : ∀ op, order op b a = .ok (some (compare y x)))
    (equal : equalTo a b = true ↔ x = y) (ha : a.isNaN = false) (hb : b.isNaN = false) :
    ∃ o, Ordered a b o := by
  refine ⟨some (compare x y), forth, fun op => ?_, ?_, ?_⟩
  · rw [back, Option.map_some, ← Std.OrientedOrd.eq_swap]
  · rw [Bool.eq_iff_iff, equal, beq_iff_eq, Option.some_inj, Std.compare_eq_iff_eq]
  · rw [ha, hb]
    exact iff_of_false nofun nofun

/-- Comparable literals are ordered unless one is a NaN, and equality agrees. -/
theorem exists_ordered (h : a.Comparable b) : ∃ o, Ordered a b o := by
  have hconverted (n : Int64) : (Literal.int n).isNaN = (Float.ofInt n.toInt).isNaN :=
    (Number.isNearest_ofInt n).isNaN.symm
  rcases h with ⟨ha, hb⟩ | ⟨ha, hb⟩ | ⟨ha, hb⟩
  · cases a with
    | int x =>
        cases b with
        | int y =>
            refine ordered_total (fun _ => rfl) (fun _ => rfl) ?_ rfl rfl
            exact beq_iff_eq.trans Int64.toInt_inj.symm
        | float y => exact ordered_floats (fun _ => rfl) (fun _ => rfl) rfl (hconverted x) rfl
        | _ => cases hb
    | float x =>
        cases b with
        | int y =>
            exact ordered_floats (fun _ => rfl) (fun _ => rfl) BEq.comm rfl (hconverted y)
        | float y => exact ordered_floats (fun _ => rfl) (fun _ => rfl) rfl rfl rfl
        | _ => cases hb
    | _ => cases ha
  · cases a with
    | str x =>
        cases b with
        | str y => exact ordered_total (fun _ => rfl) (fun _ => rfl) beq_iff_eq rfl rfl
        | _ => cases hb
    | _ => cases ha
  · cases a with
    | bool x =>
        cases b with
        | bool y => exact ordered_total (fun _ => rfl) (fun _ => rfl) beq_iff_eq rfl rfl
        | _ => cases hb
    | _ => cases ha

/-- Other literals are of kinds that the operators do not take. -/
theorem order_eq_error (h : ¬ a.Comparable b) (op : Op) :
    order op a b = .error (mismatch op [a, b]) := by
  cases a <;> cases b <;> first
    | rfl
    | exact absurd (.inl ⟨rfl, rfl⟩) h
    | exact absurd (.inr (.inl ⟨rfl, rfl⟩)) h
    | exact absurd (.inr (.inr ⟨rfl, rfl⟩)) h

/-! ## The operators -/

/-- The operator says this of two literals. -/
def Answers (op : Op) (a b : Literal) (t : Bool) : Prop :=
  apply op [.lit a, .lit b] = .ok (.lit (.bool t))

/-- The operators that read the order. -/
def orderings : List Op :=
  [.less, .lessEqual, .greater, .greaterEqual]

/-- A comparison is a test on the order of its operands. -/
theorem apply_ordering (hop : op ∈ orderings) (a b : Literal) :
    apply op [.lit a, .lit b] = (do return .lit (.bool (meets op (← order op a b)))) := by
  have hbinary (op : Op) : Value.lit <$> (do return .bool (meets op (← order op a b)))
      = (do return .lit (.bool (meets op (← order op a b))) : Outcome Value) := by
    cases order op a b <;> rfl
  simp only [orderings, List.mem_cons, List.not_mem_nil, or_false] at hop
  rcases hop with rfl | rfl | rfl | rfl
  all_goals
    rw [apply_two rfl (by decide) rfl rfl]
    exact hbinary _

/-- The converse comparison meets the opposite orders. -/
theorem meets_converse (hop : op ∈ orderings) (o : Option Ordering) :
    op.converse ∈ orderings ∧ meets op.converse (o.map Ordering.swap) = meets op o := by
  simp only [orderings, List.mem_cons, List.not_mem_nil, or_false] at hop
  rcases hop with rfl | rfl | rfl | rfl
  all_goals
    refine ⟨by decide, ?_⟩
    rcases o with _ | _ | _ | _ <;> rfl

/-- An operator reads the order, and its converse reads the same with the operands exchanged. -/
theorem Ordered.answers (h : Ordered a b o) (hop : op ∈ orderings) :
    Answers op a b (meets op o) ∧ Answers op.converse b a (meets op o) := by
  obtain ⟨hconverse, hmeets⟩ := meets_converse hop o
  rw [Answers, Answers, apply_ordering hop, apply_ordering hconverse, h.forth, h.back]
  exact ⟨rfl, congrArg (fun t => Except.ok (Value.lit (.bool t))) hmeets⟩

/-- The test for equality always answers. -/
theorem answers_equalTo (a b : Literal) : Answers .equalTo a b (equalTo a b) :=
  apply_two rfl (by decide) rfl rfl

/-- So does the test for inequality, with the opposite. -/
theorem answers_notEqualTo (a b : Literal) : Answers .notEqualTo a b (!equalTo a b) :=
  apply_two rfl (by decide) rfl rfl

/-- Equality does not depend on the order of the operands. -/
theorem equalTo_comm (a b : Literal) : equalTo a b = equalTo b a := by
  cases a <;> cases b <;> first | rfl | exact BEq.comm

/-- What the operators say of two literals, and the other way round, agrees. -/
structure Coherent (a b : Literal) (lt eq gt le ge : Bool) : Prop where
  less : Answers .less a b lt ∧ Answers .greater b a lt
  greater : Answers .greater a b gt ∧ Answers .less b a gt
  lessEqual : Answers .lessEqual a b le ∧ Answers .greaterEqual b a le
  greaterEqual : Answers .greaterEqual a b ge ∧ Answers .lessEqual b a ge
  equalTo : Answers .equalTo a b eq
  ordered : a.isNaN = false → b.isNaN = false →
    [lt, eq, gt].count true = 1 ∧ le = (lt || eq) ∧ ge = (gt || eq)
  unordered : a.isNaN = true ∨ b.isNaN = true →
    lt = false ∧ eq = false ∧ gt = false ∧ le = false ∧ ge = false

/-- The operators are five readings of one order. -/
theorem Ordered.coherent (h : Ordered a b o) :
    Coherent a b (meets .less o) (o == some .eq) (meets .greater o) (meets .lessEqual o)
      (meets .greaterEqual o) where
  less := h.answers (by decide)
  greater := h.answers (by decide)
  lessEqual := h.answers (by decide)
  greaterEqual := h.answers (by decide)
  equalTo := h.equal ▸ answers_equalTo a b
  ordered := by
    intro ha hb
    have hsome : o ≠ none := fun hnone => by
      rcases h.unordered.mp hnone with hnan | hnan
      · rw [ha] at hnan
        cases hnan
      · rw [hb] at hnan
        cases hnan
    rcases o with _ | _ | _ | _
    · exact absurd rfl hsome
    all_goals decide
  unordered := by
    intro hnan
    obtain rfl := h.unordered.mpr hnan
    decide

/-- `less` fails on literals that are not comparable, and on no others. -/
theorem apply_less_eq_error (a b : Literal) (err : Error) :
    apply .less [.lit a, .lit b] = .error err
      ↔ ¬ a.Comparable b ∧ err = mismatch .less [a, b] := by
  by_cases h : a.Comparable b
  · obtain ⟨o, ho⟩ := exists_ordered h
    have hless : Answers .less a b (meets .less o) := (ho.answers (by decide)).1
    rw [hless]
    exact iff_of_false nofun fun hfails => hfails.1 h
  · rw [apply_ordering (by decide), order_eq_error h]
    constructor
    · intro herr
      exact ⟨h, (Except.error.inj herr).symm⟩
    · rintro ⟨-, rfl⟩
      rfl

/-- Beside a double an integer is compared as the double nearest to it. -/
theorem apply_mixed (n : Int64) (x : Float) : ∃ y, Number.IsNearest n.toInt y
    ∧ ∀ op ∈ .equalTo :: .notEqualTo :: orderings,
      apply op [.lit (.int n), .lit (.float x)] = apply op [.lit (.float y), .lit (.float x)]
      ∧ apply op [.lit (.float x), .lit (.int n)] = apply op [.lit (.float x), .lit (.float y)]
    := by
  refine ⟨Float.ofInt n.toInt, Number.isNearest_ofInt n, ?_⟩
  have hequal : equalTo (.float x) (.int n) = equalTo (.float x) (.float (.ofInt n.toInt)) :=
    BEq.comm
  intro op hop
  rcases List.mem_cons.mp hop with rfl | hop
  · rw [answers_equalTo, answers_equalTo, answers_equalTo, answers_equalTo, hequal]
    exact ⟨rfl, rfl⟩
  rcases List.mem_cons.mp hop with rfl | hop
  · rw [answers_notEqualTo, answers_notEqualTo, answers_notEqualTo, answers_notEqualTo, hequal]
    exact ⟨rfl, rfl⟩
  · rw [apply_ordering hop, apply_ordering hop, apply_ordering hop, apply_ordering hop]
    exact ⟨rfl, rfl⟩

/-- Where `less` has a value so have the other three orderings, and they and equality agree with
each other: without a NaN exactly one of less, equal and greater holds, and with one nothing does.
Equality has a value for any two literals, the same both ways, and the opposite of its negation.
`less` fails just where the literals are not both numbers, both strings or both truth values, and
between an integer and a double it is the nearest double that is compared. -/
theorem comparisons_cohere (a b : Literal) :
    (∀ v, apply .less [.lit a, .lit b] = .ok v →
        ∃ lt eq gt le ge, Coherent a b lt eq gt le ge)
      ∧ (∃ eq, Answers .equalTo a b eq ∧ Answers .equalTo b a eq ∧ Answers .notEqualTo a b !eq)
      ∧ (∀ err, apply .less [.lit a, .lit b] = .error err
        ↔ ¬ a.Comparable b ∧ err = mismatch .less [a, b])
      ∧ ∀ n x, ∃ y, Number.IsNearest n.toInt y ∧ ∀ op ∈ .equalTo :: .notEqualTo :: orderings,
        apply op [.lit (.int n), .lit (.float x)] = apply op [.lit (.float y), .lit (.float x)]
        ∧ apply op [.lit (.float x), .lit (.int n)] = apply op [.lit (.float x), .lit (.float y)]
    := by
  refine ⟨fun v hv => ?_, ⟨equalTo a b, answers_equalTo a b, ?_, answers_notEqualTo a b⟩,
    apply_less_eq_error a b, apply_mixed⟩
  · have hcomparable : a.Comparable b := by
      by_contra h
      rw [(apply_less_eq_error a b _).mpr ⟨h, rfl⟩] at hv
      cases hv
    obtain ⟨o, ho⟩ := exists_ordered hcomparable
    exact ⟨_, _, _, _, _, ho.coherent⟩
  · rw [equalTo_comm]
    exact answers_equalTo b a

/-- An integer of fifty-four bits beside a double: it is compared as its even neighbour, and so
neither is the greater one. -/
theorem comparisons_cohere_rounded :
    apply .less [.lit (.int 0x20000000000001), .lit (.float 9007199254740992.0)]
        = .ok (.lit (.bool false))
      ∧ ∃ gt le ge,
        Coherent (.int 0x20000000000001) (.float 9007199254740992.0) false true gt le ge := by
  have hless : apply .less [.lit (.int 0x20000000000001), .lit (.float 9007199254740992.0)]
      = .ok (.lit (.bool false)) :=
    congrArg (fun t => Except.ok (Value.lit (.bool t))) (by decide : meets .less
      (Number.compare? (Float.ofInt 0x20000000000001) 9007199254740992.0) = false)
  have hequal : equalTo (.int 0x20000000000001) (.float 9007199254740992.0) = true := by decide
  obtain ⟨hcoherent, -⟩ :=
    comparisons_cohere (.int 0x20000000000001) (.float 9007199254740992.0)
  obtain ⟨lt, eq, gt, le, ge, h⟩ := hcoherent _ hless
  obtain rfl : lt = false := by
    have hlt := h.less.1
    rw [Answers, hless] at hlt
    cases hlt
    rfl
  obtain rfl : eq = true := by
    have heq := h.equalTo
    rw [Answers, answers_equalTo, hequal] at heq
    cases heq
    rfl
  exact ⟨hless, gt, le, ge, h⟩

end Builtin

end TreeGrammar
