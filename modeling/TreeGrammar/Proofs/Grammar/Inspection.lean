import TreeGrammar.Grammar

/-! # Inspection — what stands in a grammar or an action

    Grammars and actions nest in each other: in alternatives and children, in the
    conditions and bodies of cases, in arguments and algorithms.  An `Inspection` asks
    something of every pattern and every action that stands anywhere in them, or
    anywhere outside of nested algorithms.  Main notion: `IsClosed`, no `recurse`
    outside of nested algorithms. -/

namespace TreeGrammar

/-- What is asked of everything that stands in a grammar or an action. -/
structure Inspection where
  /-- Asked of each pattern, not counting what stands in it. -/
  pattern : Grammar → Bool
  /-- Asked of each action, not counting what stands in it. -/
  action : Action → Bool
  /-- Whether what stands in nested algorithms is asked as well. -/
  algorithms : Bool

mutual
/-- Whether a grammar passes an inspection. -/
def Grammar.passes (k : Inspection) : Grammar → Bool
  | .wildcard => k.pattern .wildcard
  | .exact s => k.pattern (.exact s)
  | .terminal kind? => k.pattern (.terminal kind?)
  | .literal l => k.pattern (.literal l)
  | .node tag? gs => k.pattern (.node tag? gs) && Grammar.allPass k gs
  | .vararg tag? leading rest =>
    k.pattern (.vararg tag? leading rest) && (Grammar.allPass k leading && rest.passes k)
  | .all gs => k.pattern (.all gs) && Grammar.allPass k gs
  | .any gs => k.pattern (.any gs) && Grammar.allPass k gs
  | .except g => k.pattern (.except g) && g.passes k
  | .choose c yes no =>
    k.pattern (.choose c yes no) && (c.passes k && (yes.passes k && no.passes k))
  | .switch cases => k.pattern (.switch cases) && Case.allPass k cases
  | .recurse => k.pattern .recurse
/-- Whether all grammars of a list pass an inspection. -/
def Grammar.allPass (k : Inspection) : List Grammar → Bool
  | [] => true
  | g :: gs => g.passes k && Grammar.allPass k gs
/-- Whether a case passes an inspection, its pattern and its body. -/
def Case.passes (k : Inspection) : Case → Bool
  | ⟨g, body⟩ => g.passes k && Action.allPass k body
/-- Whether all cases of a list pass an inspection. -/
def Case.allPass (k : Inspection) : List Case → Bool
  | [] => true
  | c :: cs => c.passes k && Case.allPass k cs
/-- Whether an action passes an inspection. -/
def Action.passes (k : Inspection) : Action → Bool
  | .constant v => k.action (.constant v)
  | .arg which => k.action (.arg which)
  | .child i => k.action (.child i)
  | .value => k.action .value
  | .passThrough => k.action .passThrough
  | .call function args =>
    k.action (.call function args) && (function.passes k && Action.allPass k args)
  | .when g inner? => k.action (.when g inner?) && (g.passes k && Action.passesIfAny k inner?)
  | .algorithm g => k.action (.algorithm g) && (!k.algorithms || g.passes k)
  | .leaf name => k.action (.leaf name)
  | .invoke a target state? data? =>
    k.action (.invoke a target state? data?) && (a.passes k && (target.passes k
      && (Action.passesIfAny k state? && Action.passesIfAny k data?)))
  | .fold start step reverse =>
    k.action (.fold start step reverse) && (start.passes k && step.passes k)
  | .make tag args => k.action (.make tag args) && Action.allPass k args
  | .evaluate inner? => k.action (.evaluate inner?) && Action.passesIfAny k inner?
  | .recurse => k.action .recurse
/-- Whether all actions of a list pass an inspection. -/
def Action.allPass (k : Inspection) : List Action → Bool
  | [] => true
  | a :: as => a.passes k && Action.allPass k as
/-- Whether an action passes an inspection, if there is one. -/
def Action.passesIfAny (k : Inspection) : Option Action → Bool
  | none => true
  | some a => a.passes k
end

variable {k : Inspection}

theorem Grammar.allPass_iff {gs : List Grammar} :
    Grammar.allPass k gs = true ↔ ∀ g ∈ gs, g.passes k = true := by
  induction gs with
  | nil => exact ⟨nofun, fun _ => rfl⟩
  | cons g gs ih =>
      rw [List.forall_mem_cons, ← ih]
      exact Bool.and_eq_true_iff

theorem Case.allPass_iff {cases : List Case} :
    Case.allPass k cases = true ↔ ∀ c ∈ cases, c.passes k = true := by
  induction cases with
  | nil => exact ⟨nofun, fun _ => rfl⟩
  | cons c cases ih =>
      rw [List.forall_mem_cons, ← ih]
      exact Bool.and_eq_true_iff

theorem Action.allPass_iff {as : List Action} :
    Action.allPass k as = true ↔ ∀ a ∈ as, a.passes k = true := by
  induction as with
  | nil => exact ⟨nofun, fun _ => rfl⟩
  | cons a as ih =>
      rw [List.forall_mem_cons, ← ih]
      exact Bool.and_eq_true_iff

theorem Action.passesIfAny_iff {a? : Option Action} :
    Action.passesIfAny k a? = true ↔ ∀ a ∈ a?, a.passes k = true := by
  cases a? with
  | none => exact ⟨nofun, fun _ => rfl⟩
  | some a => exact ⟨fun ha b hb => by cases hb; exact ha, fun h => h a rfl⟩

/-- A case passes with its pattern and all actions of its body. -/
theorem Case.passes_iff {c : Case} :
    c.passes k = true ↔ c.pattern.passes k = true ∧ ∀ a ∈ c.body, a.passes k = true := by
  obtain ⟨pattern, body⟩ := c
  rw [← Action.allPass_iff]
  exact Bool.and_eq_true_iff

/-! ## What passes with a grammar or an action -/

namespace Grammar

variable {tag? : Option Tag} {g yes no rest : Grammar} {gs leading : List Grammar}
  {cases : List Case} {c : Action}

/-- A structural pattern passes by itself and with all its children's patterns. -/
theorem passes_node : (node tag? gs).passes k = true
    ↔ k.pattern (.node tag? gs) = true ∧ ∀ g ∈ gs, g.passes k = true := by
  rw [← allPass_iff]
  exact Bool.and_eq_true_iff

/-- A pattern of any number of children passes by itself, with the leading ones and with the rest.
-/
theorem passes_vararg : (vararg tag? leading rest).passes k = true
    ↔ k.pattern (.vararg tag? leading rest) = true
      ∧ (∀ g ∈ leading, g.passes k = true) ∧ rest.passes k = true := by
  rw [← allPass_iff, ← Bool.and_eq_true_iff, ← Bool.and_eq_true_iff]
  rfl

theorem passes_all : (all gs).passes k = true
    ↔ k.pattern (.all gs) = true ∧ ∀ g ∈ gs, g.passes k = true := by
  rw [← allPass_iff]
  exact Bool.and_eq_true_iff

theorem passes_any : (any gs).passes k = true
    ↔ k.pattern (.any gs) = true ∧ ∀ g ∈ gs, g.passes k = true := by
  rw [← allPass_iff]
  exact Bool.and_eq_true_iff

theorem passes_except : (except g).passes k = true
    ↔ k.pattern (.except g) = true ∧ g.passes k = true :=
  Bool.and_eq_true_iff

/-- A conditional pattern passes by itself and with all its three parts. -/
theorem passes_choose : (choose c yes no).passes k = true
    ↔ k.pattern (.choose c yes no) = true
      ∧ c.passes k = true ∧ yes.passes k = true ∧ no.passes k = true := by
  rw [← Bool.and_eq_true_iff, ← Bool.and_eq_true_iff, ← Bool.and_eq_true_iff]
  rfl

/-- A switch passes by itself and with all its cases. -/
theorem passes_switch : (switch cases).passes k = true
    ↔ k.pattern (.switch cases) = true ∧ ∀ c ∈ cases, c.passes k = true := by
  rw [← Case.allPass_iff]
  exact Bool.and_eq_true_iff

/-- A pattern of a list, or the one that stands for those behind it. -/
theorem passes_getD (hleading : ∀ g ∈ leading, g.passes k = true) (hrest : rest.passes k = true)
    (i : Nat) : (leading.getD i rest).passes k = true := by
  rw [List.getD_eq_getElem?_getD]
  cases hi : leading[i]? with
  | none => exact hrest
  | some g => exact hleading g (List.mem_of_getElem? hi)

end Grammar

namespace Action

variable {g : Grammar} {a function target start step : Action} {args : List Action}
  {inner? state? data? : Option Action} {tag : Tag} {reverse : Bool}

/-- A call passes by itself, with its function and with all its arguments. -/
theorem passes_call : (call function args).passes k = true
    ↔ k.action (.call function args) = true
      ∧ function.passes k = true ∧ ∀ a ∈ args, a.passes k = true := by
  rw [← allPass_iff, ← Bool.and_eq_true_iff, ← Bool.and_eq_true_iff]
  rfl

/-- A guarded action passes by itself, with its guard and with its inner action. -/
theorem passes_when : (Action.when g inner?).passes k = true
    ↔ k.action (.when g inner?) = true
      ∧ g.passes k = true ∧ ∀ a ∈ inner?, a.passes k = true := by
  rw [← passesIfAny_iff, ← Bool.and_eq_true_iff, ← Bool.and_eq_true_iff]
  rfl

/-- Whether an algorithm's grammar is looked at is for the inspection to say. -/
theorem passes_algorithm : (algorithm g).passes k = true
    ↔ k.action (.algorithm g) = true ∧ (k.algorithms = true → g.passes k = true) := by
  have hinside : (!k.algorithms || g.passes k) = true
      ↔ (k.algorithms = true → g.passes k = true) := by
    cases k.algorithms <;> simp
  rw [← hinside, ← Bool.and_eq_true_iff]
  rfl

/-- An invocation passes by itself and with all its parts, those it does without aside. -/
theorem passes_invoke : (invoke a target state? data?).passes k = true
    ↔ k.action (.invoke a target state? data?) = true ∧ a.passes k = true
      ∧ target.passes k = true ∧ (∀ b ∈ state?, b.passes k = true)
      ∧ ∀ b ∈ data?, b.passes k = true := by
  rw [← passesIfAny_iff, ← passesIfAny_iff, ← Bool.and_eq_true_iff, ← Bool.and_eq_true_iff,
    ← Bool.and_eq_true_iff, ← Bool.and_eq_true_iff]
  rfl

/-- A fold passes by itself, with its start and with its step. -/
theorem passes_fold : (fold start step reverse).passes k = true
    ↔ k.action (.fold start step reverse) = true
      ∧ start.passes k = true ∧ step.passes k = true := by
  rw [← Bool.and_eq_true_iff, ← Bool.and_eq_true_iff]
  rfl

theorem passes_make : (make tag args).passes k = true
    ↔ k.action (.make tag args) = true ∧ ∀ a ∈ args, a.passes k = true := by
  rw [← allPass_iff]
  exact Bool.and_eq_true_iff

theorem passes_evaluate : (evaluate inner?).passes k = true
    ↔ k.action (.evaluate inner?) = true ∧ ∀ a ∈ inner?, a.passes k = true := by
  rw [← passesIfAny_iff]
  exact Bool.and_eq_true_iff

end Action

/-! ## Closed grammars and actions -/

/-- Nothing but what stands in nested algorithms refers to an enclosing grammar. -/
def Inspection.closed : Inspection where
  pattern g := match g with
    | .recurse => false
    | _ => true
  action a := match a with
    | .recurse => false
    | _ => true
  algorithms := false

/-- No `recurse` stands in the grammar outside of nested algorithms. -/
def Grammar.IsClosed (g : Grammar) : Prop :=
  g.passes .closed = true

/-- No `recurse` stands in the action outside of nested algorithms. -/
def Action.IsClosed (a : Action) : Prop :=
  a.passes .closed = true

/-- No `recurse` stands in the pattern or the body of the case outside of nested algorithms. -/
def Case.IsClosed (c : Case) : Prop :=
  c.passes .closed = true

instance (g : Grammar) : Decidable g.IsClosed :=
  inferInstanceAs (Decidable (g.passes .closed = true))

instance (a : Action) : Decidable a.IsClosed :=
  inferInstanceAs (Decidable (a.passes .closed = true))

instance (c : Case) : Decidable c.IsClosed :=
  inferInstanceAs (Decidable (c.passes .closed = true))

end TreeGrammar
