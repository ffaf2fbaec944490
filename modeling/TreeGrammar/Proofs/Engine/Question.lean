import TreeGrammar.Proofs.Failure
import TreeGrammar.Proofs.Grammar.Nesting

/-! # Questions — what a step asks of the level below

    A level can be asked five kinds of things, and one step answers a question by asking
    others of the level below.  `Question.Asks` says which these can be.  A step goes on
    with the values it is given, raises errors of its own, and does nothing else with a
    level.  So two levels of any two monads may be compared: a relation that sequencing
    respects holds of two steps if it holds of all that the steps ask. -/

namespace TreeGrammar

/-- What can be asked of a level. -/
inductive Question where
  | accepts (root? : Option Grammar) (node : Tree) (pattern : Grammar)
  | apply (site : Site) (action : Action)
  | transform (site : Site) (grammar : Grammar)
  | rebuild (node : Tree)
  | evaluate (site : Site) (inner? : Option Action)

namespace Question

/-- What answers a question. -/
def Answer : Question → Type
  | accepts _ _ _ => Bool
  | rebuild _ => Tree
  | apply _ _ | transform _ _ | evaluate _ _ => Value

/-- The question comes down to a `recurse` that nothing encloses. -/
inductive IsUnbound : Question → Prop
  | accepts {t} : IsUnbound (accepts none t .recurse)
  | apply {t state data} : IsUnbound (apply ⟨none, t, state, data⟩ .recurse)
  | transform {t state data} : IsUnbound (transform ⟨none, t, state, data⟩ .recurse)

/-- What a step may ask of the level below to answer a question; it asks nothing else. -/
inductive Asks (whenDefault : WhenDefault) : Question → Question → Prop
  -- what a pattern accepts
  | acceptsBeside {root? t g g'} (h : g' ∈ g.beside) :
      Asks whenDefault (accepts root? t g) (accepts root? t g')
  | acceptsBeneath {root? t g g' c} (h : g' ∈ g.beneath) (hc : c ∈ t.children) :
      Asks whenDefault (accepts root? t g) (accepts root? c g')
  | acceptsCondition {root? t c yes no} :
      Asks whenDefault (accepts root? t (.choose c yes no)) (apply ⟨root?, t, .unit, .unit⟩ c)
  | acceptsRoot {t g} : Asks whenDefault (accepts (some g) t .recurse) (accepts (some g) t g)
  -- what a grammar computes: it is matched, or a part is chosen
  | matched {s g} : Asks whenDefault (transform s g) (accepts s.root? s.node g)
  | matchedBeside {s g g'} (h : g' ∈ g.beside) :
      Asks whenDefault (transform s g) (accepts s.root? s.node g')
  | transformCondition {s c yes no} :
      Asks whenDefault (transform s (.choose c yes no)) (apply ⟨s.root?, s.node, .unit, .unit⟩ c)
  | transformBeside {s g g'} (h : g' ∈ g.beside) :
      Asks whenDefault (transform s g) (transform s g')
  | transformBeneath {s g g' c} (h : g' ∈ g.beneath) (hc : c ∈ s.node.children) :
      Asks whenDefault (transform s g) (transform { s with node := c, state := .node s.node } g')
  | transformBody {s cases a} (h : a ∈ (Grammar.switch cases).actions) :
      Asks whenDefault (transform s (.switch cases)) (apply s a)
  | transformRoot {t state data g} :
      Asks whenDefault (transform ⟨some g, t, state, data⟩ .recurse)
        (transform ⟨some g, t, state, data⟩ g)
  -- what an action computes, its operands at other sites inside of the same grammar
  | operand {s a a' t state data} (h : a' ∈ a.operands) :
      Asks whenDefault (apply s a) (apply ⟨s.root?, t, state, data⟩ a')
  | guard {s g inner?} : Asks whenDefault (apply s (.when g inner?)) (accepts s.root? s.node g)
  | guarded {s g} (h : whenDefault = .pattern) :
      Asks whenDefault (apply s (.when g none)) (transform s g)
  | guardedCopy {s g} (h : whenDefault = .passThrough) :
      Asks whenDefault (apply s (.when g none)) (rebuild s.node)
  | copy {s} : Asks whenDefault (apply s .passThrough) (rebuild s.node)
  | algorithm {s g} :
      Asks whenDefault (apply s (.algorithm g)) (transform { s with root? := some g } g)
  | evaluation {s inner?} : Asks whenDefault (apply s (.evaluate inner?)) (evaluate s inner?)
  | applyRoot {t state data g} :
      Asks whenDefault (apply ⟨some g, t, state, data⟩ .recurse)
        (transform ⟨some g, t, state, data⟩ g)
  -- what becomes of the children
  | rebuildChild {t c} (hc : c ∈ t.children) : Asks whenDefault (rebuild t) (rebuild c)
  | evaluateChild {s c} (hc : c ∈ s.node.children) :
      Asks whenDefault (evaluate s none) (evaluate { s with node := c } none)
  | evaluateInner {s a c} (hc : c ∈ s.node.children) :
      Asks whenDefault (evaluate s (some a)) (apply { s with node := c } a)

end Question

theorem Level.patternAt_mem (leading : List Grammar) (rest : Grammar) (i : Nat) :
    Level.patternAt leading rest i ∈ rest :: leading := by
  rw [Level.patternAt, List.getD_eq_getElem?_getD]
  cases hi : leading[i]? with
  | none => exact List.mem_cons_self ..
  | some g => exact List.mem_cons_of_mem _ (List.mem_of_getElem? hi)

section

variable {m n : Type → Type} [Monad m] [MonadExcept Error m] [Monad n] [MonadExcept Error n]

/-- What a level says to a question. -/
def Level.answer (l : Level m) : (q : Question) → m q.Answer
  | .accepts root? t g => l.accepts root? t g
  | .apply s a => l.apply s a
  | .transform s g => l.transform s g
  | .rebuild t => l.rebuild t
  | .evaluate s inner? => l.evaluate s inner?

/-- What is selected by the tests of one level. -/
def Level.select (l : Level m) (t : Tree) (g : Grammar) : m (Option Nat) := do
  match g with
  | .switch cases => return (← l.firstCase (some g) t cases).map Prod.fst
  | .any gs => return (← l.firstAlternative (some g) t gs).map Prod.fst
  | _ => if ← l.accepts (some g) t g then return some 0 else return none

/-- A selection only tests, at the level of a whole call. -/
theorem Engine.select_eq (e : Engine m) (t : Tree) (g : Grammar) :
    e.select t g = e.top.select t g := by
  cases g <;> rfl

/-- A relation between the computations of two monads that holds of a step's own outcomes, and of
what follows on related computations if it does so for every value. -/
structure Compatible (m n : Type → Type) [Monad m] [MonadExcept Error m] [Monad n]
    [MonadExcept Error n] (R : ∀ {α : Type}, m α → n α → Prop) : Prop where
  own : ∀ {α : Type} {o : Outcome α}, o.FailsOnly Error.OfStep →
    R (Outcome.lift o) (Outcome.lift o)
  bind : ∀ {α β : Type} {x : m α} {y : n α} {f : α → m β} {g : α → n β},
    R x y → (∀ a, R (f a) (g a)) → R (x >>= f) (y >>= g)

/-- The functions and leaves of two libraries are related by their names. -/
structure Library.Compared (lib : Library m) (lib' : Library n)
    (R : ∀ {α : Type}, m α → n α → Prop) : Prop where
  function : ∀ name args, R (lib.function name args) (lib'.function name args)
  leaf : ∀ name t state data, R (lib.leaf name t state data) (lib'.leaf name t state data)

variable {R : ∀ {α : Type}, m α → n α → Prop}

namespace Compatible

variable (hR : Compatible m n R) {α β : Type}

include hR

theorem pure (a : α) : R (Pure.pure a) (Pure.pure a) :=
  hR.own (o := .ok a) (Outcome.failsOnly_ok a)

theorem throw {err : Error} (h : err.OfStep) :
    R (MonadExcept.throw err : m α) (MonadExcept.throw err) :=
  hR.own (o := .error err) (Outcome.failsOnly_error h)

theorem operator {o : Outcome α} (h : o.FailsOnly Error.OfOperator) :
    R (Outcome.lift o) (Outcome.lift o) :=
  hR.own (h.mono fun _ => Error.OfOperator.ofStep)

/-- One of two branches, as related verdicts say. -/
theorem branch {x : m Bool} {y : n Bool} {yes no : m β} {yes' no' : n β} (hxy : R x y)
    (hyes : R yes yes') (hno : R no no') :
    R (x >>= fun b => if b then yes else no) (y >>= fun b => if b then yes' else no') := by
  refine hR.bind hxy fun b => ?_
  cases b with
  | true => exact hyes
  | false => exact hno

section Lists

variable {l : List α} {p : α → m Bool} {p' : α → n Bool} (hp : ∀ a ∈ l, R (p a) (p' a))

include hp

/-- Related tests pass together in related ways. -/
theorem allM : R (l.allM p) (l.allM p') := by
  induction l with
  | nil => exact hR.pure true
  | cons a l ih =>
      obtain ⟨ha, hl⟩ := List.forall_mem_cons.mp hp
      refine hR.bind ha fun b => ?_
      cases b with
      | true => exact ih hl
      | false => exact hR.pure false

theorem anyM : R (l.anyM p) (l.anyM p') := by
  induction l with
  | nil => exact hR.pure false
  | cons a l ih =>
      obtain ⟨ha, hl⟩ := List.forall_mem_cons.mp hp
      refine hR.bind ha fun b => ?_
      cases b with
      | true => exact hR.pure true
      | false => exact ih hl

/-- What follows on a search goes on with an item of the list or with none. -/
theorem firstFrom_bind [LawfulMonad m] [LawfulMonad n] {f : Option (Nat × α) → m β}
    {g : Option (Nat × α) → n β} (hfound : ∀ a ∈ l, ∀ i, R (f (some (i, a))) (g (some (i, a))))
    (hnone : R (f none) (g none)) (start : Nat) :
    R (Verdict.firstFrom start p l >>= f) (Verdict.firstFrom start p' l >>= g) := by
  induction l generalizing start with
  | nil =>
      rw [Verdict.firstFrom, Verdict.firstFrom, pure_bind, pure_bind]
      exact hnone
  | cons a l ih =>
      obtain ⟨ha, hl⟩ := List.forall_mem_cons.mp hp
      obtain ⟨hhead, htail⟩ := List.forall_mem_cons.mp hfound
      rw [Verdict.firstFrom, Verdict.firstFrom, bind_assoc, bind_assoc]
      refine hR.bind ha fun b => ?_
      cases b with
      | true =>
          rw [if_pos rfl, if_pos rfl, pure_bind, pure_bind]
          exact hhead start
      | false => exact ih hl htail (start + 1)

theorem first [LawfulMonad m] [LawfulMonad n] : R (Verdict.first p l) (Verdict.first p' l) := by
  rw [← bind_pure (Verdict.first p l), ← bind_pure (Verdict.first p' l)]
  exact hR.firstFrom_bind hp (fun a _ i => hR.pure (some (i, a))) (hR.pure none) 0

end Lists

/-- Related computations give related lists. -/
theorem mapM [LawfulMonad m] [LawfulMonad n] {l : List α} {f : α → m β} {g : α → n β}
    (hfg : ∀ a ∈ l, R (f a) (g a)) : R (l.mapM f) (l.mapM g) := by
  induction l with
  | nil =>
      rw [List.mapM_nil, List.mapM_nil]
      exact hR.pure []
  | cons a l ih =>
      obtain ⟨ha, hl⟩ := List.forall_mem_cons.mp hfg
      rw [List.mapM_cons, List.mapM_cons]
      exact hR.bind ha fun b => hR.bind (ih hl) fun bs => hR.pure (b :: bs)

theorem foldlM [LawfulMonad m] [LawfulMonad n] {l : List α} {f : β → α → m β} {g : β → α → n β}
    (hfg : ∀ b, ∀ a ∈ l, R (f b a) (g b a)) (b : β) : R (l.foldlM f b) (l.foldlM g b) := by
  induction l generalizing b with
  | nil => exact hR.pure b
  | cons a l ih =>
      rw [List.foldlM_cons, List.foldlM_cons]
      refine hR.bind (hfg b a List.mem_cons_self) fun b' => ?_
      exact ih (fun b a' ha' => hfg b a' (List.mem_cons_of_mem a ha')) b'

/-! ## The steps -/

section Steps

variable {lo : Level m} {hi : Level n}

theorem condition {root? : Option Grammar} {t : Tree} {c : Action}
    (hc : R (lo.apply ⟨root?, t, .unit, .unit⟩ c) (hi.apply ⟨root?, t, .unit, .unit⟩ c)) :
    R (Level.condition lo root? t c) (Level.condition hi root? t c) := by
  refine hR.bind hc fun v => ?_
  split
  · exact hR.pure _
  · exact hR.throw trivial

theorem ensure {s : Site} {g : Grammar}
    (hg : R (lo.accepts s.root? s.node g) (hi.accepts s.root? s.node g)) :
    R (Level.ensure lo s g) (Level.ensure hi s g) :=
  hR.branch hg (hR.pure ()) (hR.throw trivial)

theorem copy {t : Tree} (ht : R (lo.rebuild t) (hi.rebuild t)) :
    R (Level.copy lo t) (Level.copy hi t) := by
  unfold Level.copy
  split
  · exact hR.pure t
  · exact ht

variable [LawfulMonad m] [LawfulMonad n]

theorem select (lo : Level m) (hi : Level n) {t : Tree} {g : Grammar}
    (h : ∀ g', R (lo.accepts (some g) t g') (hi.accepts (some g) t g')) :
    R (lo.select t g) (hi.select t g) := by
  cases g with
  | switch cases =>
      exact hR.bind (hR.first fun c _ => h c.pattern) fun found? => hR.pure _
  | any gs => exact hR.bind (hR.first fun g' _ => h g') fun found? => hR.pure _
  | _ => exact hR.branch (h _) (hR.pure (some 0)) (hR.pure none)

theorem callStep {lib : Library m} {lib' : Library n} (hlib : lib.Compared lib' R) {s : Site}
    {function : Action} {args : List Action}
    (h : ∀ a ∈ function :: args, R (lo.apply s a) (hi.apply s a)) :
    R (Level.callStep lo lib s function args) (Level.callStep hi lib' s function args) := by
  obtain ⟨hfunction, hargs⟩ := List.forall_mem_cons.mp h
  refine hR.bind hfunction fun v => ?_
  cases v with
  | lit l => exact hR.throw trivial
  | node t => exact hR.throw trivial
  | func f =>
      refine hR.bind (hR.mapM hargs) fun vs => ?_
      refine hR.bind (hR.operator (Builtin.failsOnly_checkCount _ _ _)) fun _ => ?_
      cases f.meaning with
      | builtin op => exact hR.operator (Builtin.failsOnly_apply op vs)
      | named name => exact hlib.function name vs

theorem caseStep {lib : Library m} {lib' : Library n} (hlib : lib.Compared lib' R) {s : Site}
    {c : Case} (hpattern : R (lo.transform s c.pattern) (hi.transform s c.pattern))
    (hbody : ∀ a ∈ c.body, R (lo.apply s a) (hi.apply s a)) :
    R (Level.caseStep lo lib s c) (Level.caseStep hi lib' s c) := by
  obtain ⟨pattern, body⟩ := c
  match body, hbody with
  | [], _ => exact hpattern
  | [a], hbody => exact hbody a List.mem_cons_self
  | function :: arg :: args, hbody => exact hR.callStep hlib hbody

theorem rebuildBy {s : Site} {pairs : List (Tree × Grammar)}
    (h : ∀ p ∈ pairs, R (lo.transform { s with node := p.1, state := .node s.node } p.2)
      (hi.transform { s with node := p.1, state := .node s.node } p.2)) :
    R (Level.rebuildBy lo s pairs) (Level.rebuildBy hi s pairs) := by
  unfold Level.rebuildBy
  split
  · exact hR.pure _
  · refine hR.bind (hR.mapM fun p hp => ?_) fun cs => ?_
    · exact hR.bind (h p hp) fun v => hR.own v.failsOnly_toTree
    · exact hR.bind (hR.own (Tree.failsOnly_make _ _)) fun t => hR.pure _

theorem rebuildStep {w : WhenDefault} {t : Tree}
    (h : ∀ q, (Question.rebuild t).Asks w q → R (lo.answer q) (hi.answer q)) :
    R (Level.rebuildStep lo t) (Level.rebuildStep hi t) := by
  refine hR.bind (hR.mapM fun c hc => hR.copy ?_) fun cs => hR.own (Tree.failsOnly_make _ _)
  exact h _ (.rebuildChild hc)

variable [LawfulThrow m] [LawfulThrow n]

omit hR in
/-- Where a grammar is enclosed, it is what follows. -/
theorem root {f : Grammar → m β} {f' : Grammar → n β} {root? : Option Grammar}
    (hnone : root? = none →
      R (MonadExcept.throw .unboundRecursion : m β) (MonadExcept.throw .unboundRecursion))
    (hsome : ∀ g ∈ root?, R (f g) (f' g)) :
    R (Level.root root? >>= f) (Level.root root? >>= f') := by
  cases root? with
  | none =>
      rw [Level.root, Level.root, LawfulThrow.throw_bind, LawfulThrow.throw_bind]
      exact hnone rfl
  | some g =>
      rw [Level.root, Level.root, pure_bind, pure_bind]
      exact hsome g rfl

/-- Where there is such a child, it is what follows. -/
theorem child {f : Tree → m β} {f' : Tree → n β} {t : Tree}
    (h : ∀ c ∈ t.children, R (f c) (f' c)) (i : Nat) :
    R (Outcome.lift (t.child i) >>= f) (Outcome.lift (t.child i) >>= f') := by
  rw [Tree.child, Tree.child?]
  cases hi : t.children[i]? with
  | none =>
      show R (MonadExcept.throw _ >>= f) (MonadExcept.throw _ >>= f')
      rw [LawfulThrow.throw_bind, LawfulThrow.throw_bind]
      exact hR.throw trivial
  | some c =>
      show R (Pure.pure c >>= f) (Pure.pure c >>= f')
      rw [pure_bind, pure_bind]
      exact h c (List.mem_of_getElem? hi)

theorem operatorValue {s : Site} {inner? : Option Action} {op : Op}
    (h : ∀ c ∈ s.node.children,
      R (Level.childValue lo s inner? c) (Level.childValue hi s inner? c)) :
    R (Level.operatorValue lo s inner? op) (Level.operatorValue hi s inner? op) := by
  have htruth (i : Nat) :
      R ((Outcome.lift (s.node.child i) >>= Level.childValue lo s inner?) >>= fun v =>
          Outcome.lift (Builtin.truth op v))
        ((Outcome.lift (s.node.child i) >>= Level.childValue hi s inner?) >>= fun v =>
          Outcome.lift (Builtin.truth op v)) :=
    hR.bind (hR.child h i) fun v => hR.operator (Builtin.failsOnly_truth op v).ofOperator
  unfold Level.operatorValue
  extract_lets value truth value' truth'
  -- `and`, `or` and `if` look at a child when they need it, every other operator at all of them
  split
  · refine hR.branch (htruth 0) ?_ (hR.pure _)
    exact hR.bind (htruth 1) fun b => hR.pure _
  · refine hR.branch (htruth 0) (hR.pure _) ?_
    exact hR.bind (htruth 1) fun b => hR.pure _
  · exact hR.branch (htruth 0) (hR.child h 1) (hR.child h 2)
  · exact hR.bind (hR.mapM h) fun vs => hR.operator (Builtin.failsOnly_apply op vs)

variable {lib : Library m} {lib' : Library n} (hlib : lib.Compared lib' R) {w : WhenDefault}

section Kinds

variable {root? : Option Grammar} {t : Tree} {s : Site} {g : Grammar} {a : Action}
  {inner? : Option Action}

/-- A step that matches is related if all it asks is. -/
theorem acceptsStep
    (h : ∀ q, (Question.accepts root? t g).Asks w q → R (lo.answer q) (hi.answer q))
    (hunbound : (Question.accepts root? t g).IsUnbound →
      R (MonadExcept.throw .unboundRecursion : m Bool) (MonadExcept.throw .unboundRecursion)) :
    R (Level.acceptsStep lo root? t g) (Level.acceptsStep hi root? t g) := by
  cases g with
  | wildcard => exact hR.pure _
  | exact signature => exact hR.pure _
  | terminal kind? => exact hR.pure _
  | literal l => exact hR.pure _
  | node tag? gs =>
      rw [Level.acceptsStep, Level.acceptsStep]
      split
      · refine hR.allM fun p hp => ?_
        obtain ⟨hpattern, hchild⟩ := List.of_mem_zip hp
        exact h _ (.acceptsBeneath hpattern hchild)
      · exact hR.pure _
  | vararg tag? leading rest =>
      rw [Level.acceptsStep, Level.acceptsStep]
      split
      · exact hR.pure _
      · refine hR.allM fun p hp => ?_
        exact h _ (.acceptsBeneath (Level.patternAt_mem leading rest p.2)
          (List.fst_mem_of_mem_zipIdx hp))
  | all gs => exact hR.allM fun g hg => h _ (.acceptsBeside hg)
  | any gs => exact hR.anyM fun g hg => h _ (.acceptsBeside hg)
  | except g =>
      rw [Level.acceptsStep, Level.acceptsStep, Verdict.negate, Verdict.negate, map_eq_pure_bind,
        map_eq_pure_bind]
      exact hR.bind (h _ (.acceptsBeside (List.mem_singleton_self g))) fun b => hR.pure _
  | choose c yes no =>
      exact hR.branch (hR.condition (h _ .acceptsCondition))
        (h _ (.acceptsBeside List.mem_cons_self))
        (h _ (.acceptsBeside (List.mem_cons_of_mem yes List.mem_cons_self)))
  | switch cases => exact hR.anyM fun c hc => h _ (.acceptsBeside (List.mem_map_of_mem hc))
  | recurse =>
      refine root (fun hroot => hunbound ?_) fun g hg => ?_
      · subst hroot
        exact .accepts
      · obtain rfl := Option.mem_def.mp hg
        exact h _ .acceptsRoot

include hlib in
/-- A step that runs a grammar is related if all it asks is. -/
theorem transformStep
    (h : ∀ q, (Question.transform s g).Asks w q → R (lo.answer q) (hi.answer q))
    (hunbound : (Question.transform s g).IsUnbound →
      R (MonadExcept.throw .unboundRecursion : m Value) (MonadExcept.throw .unboundRecursion)) :
    R (Level.transformStep lo lib s g) (Level.transformStep hi lib' s g) := by
  have hmatched : R (Level.ensure lo s g) (Level.ensure hi s g) := hR.ensure (h _ .matched)
  -- patterns that say nothing of the children leave the node as it is
  have hkept : R (do Level.ensure lo s g; return Value.node s.node)
      (do Level.ensure hi s g; return Value.node s.node) :=
    hR.bind hmatched fun _ => hR.pure _
  have hrejected : R (MonadExcept.throw (Level.noMatch s.node) : m Value)
      (MonadExcept.throw (Level.noMatch s.node)) := hR.throw trivial
  cases g with
  | wildcard => exact hkept
  | exact signature => exact hkept
  | terminal kind? => exact hkept
  | literal l => exact hkept
  | except g => exact hkept
  | node tag? gs =>
      refine hR.bind hmatched fun _ => hR.rebuildBy fun p hp => ?_
      obtain ⟨hchild, hpattern⟩ := List.of_mem_zip hp
      exact h _ (.transformBeneath hpattern hchild)
  | vararg tag? leading rest =>
      refine hR.bind hmatched fun _ => hR.rebuildBy fun p hp => ?_
      obtain ⟨⟨c, i⟩, hplace, rfl⟩ := List.mem_map.mp hp
      exact h _ (.transformBeneath (Level.patternAt_mem leading rest i)
        (List.fst_mem_of_mem_zipIdx hplace))
  | all gs =>
      refine hR.bind hmatched fun _ => ?_
      split
      · next last hlast => exact h _ (.transformBeside (List.mem_of_getLast? hlast))
      · exact hR.pure _
  | any gs =>
      refine hR.firstFrom_bind (fun g hg => h _ (.matchedBeside hg)) ?_ hrejected 0
      exact fun g hg i => h _ (.transformBeside hg)
  | choose c yes no =>
      exact hR.branch (hR.condition (h _ .transformCondition))
        (h _ (.transformBeside List.mem_cons_self))
        (h _ (.transformBeside (List.mem_cons_of_mem yes List.mem_cons_self)))
  | switch cases =>
      refine hR.firstFrom_bind (fun c hc => h _ (.matchedBeside (List.mem_map_of_mem hc))) ?_
        hrejected 0
      intro c hc i
      refine hR.caseStep hlib (h _ (.transformBeside (List.mem_map_of_mem hc))) fun a ha => ?_
      exact h _ (.transformBody (List.mem_flatMap_of_mem hc ha))
  | recurse =>
      obtain ⟨root?, t, state, data⟩ := s
      refine root (fun hroot => hunbound ?_) fun g hg => ?_
      · obtain rfl : root? = none := hroot
        exact .transform
      · obtain rfl : root? = some g := Option.mem_def.mp hg
        exact h _ .transformRoot

theorem evaluateStep
    (h : ∀ q, (Question.evaluate s inner?).Asks w q → R (lo.answer q) (hi.answer q)) :
    R (Level.evaluateStep lo s inner?) (Level.evaluateStep hi s inner?) := by
  unfold Level.evaluateStep
  split
  · exact hR.pure _
  · split
    · refine hR.operatorValue fun c hc => ?_
      cases inner? with
      | none => exact h _ (.evaluateChild hc)
      | some a => exact h _ (.evaluateInner hc)
    · exact hR.throw trivial

include hlib in
/-- A step that runs an action is related if all it asks is. -/
theorem applyStep
    (h : ∀ q, (Question.apply s a).Asks w q → R (lo.answer q) (hi.answer q))
    (hunbound : (Question.apply s a).IsUnbound →
      R (MonadExcept.throw .unboundRecursion : m Value) (MonadExcept.throw .unboundRecursion)) :
    R (Level.applyStep lo lib w s a) (Level.applyStep hi lib' w s a) := by
  cases a with
  | constant v => exact hR.pure _
  | arg which => cases which <;> exact hR.pure _
  | child i =>
      exact hR.bind (hR.own (s.node.failsOnly_child i)) fun c => hR.pure _
  | value =>
      unfold Level.applyStep
      dsimp only
      split
      · exact hR.pure _
      · exact hR.throw trivial
  | passThrough => exact hR.bind (hR.copy (h _ .copy)) fun t => hR.pure _
  | call function args => exact hR.callStep hlib fun a ha => h _ (.operand ha)
  | when pattern inner? =>
      refine hR.branch (h _ .guard) ?_ (hR.throw trivial)
      cases inner? with
      | some inner => exact h _ (.operand (List.mem_singleton_self inner))
      | none =>
          cases w with
          | pattern => exact h _ (.guarded rfl)
          | passThrough => exact hR.bind (hR.copy (h _ (.guardedCopy rfl))) fun t => hR.pure _
  | algorithm g => exact h _ .algorithm
  | leaf name => exact hlib.leaf name _ _ _
  | invoke action target state? data? =>
      have hpart (a : Action) (ha : a ∈ (Action.invoke action target state? data?).operands)
          (t : Tree) (state data : Value) :
          R (lo.apply ⟨s.root?, t, state, data⟩ a) (hi.apply ⟨s.root?, t, state, data⟩ a) :=
        h _ (.operand ha)
      have haction := hpart action List.mem_cons_self
      refine hR.bind (hpart target (by simp [Action.operands]) _ _ _) fun v => ?_
      refine hR.bind (hR.own v.failsOnly_toTree) fun t => ?_
      -- a part that is not given is kept, and the same follows either way
      cases state? with
      | none =>
          refine hR.bind (hR.pure s.state) fun state => ?_
          cases data? with
          | none => exact hR.bind (hR.pure s.data) fun data => haction t state data
          | some b =>
              exact hR.bind (hpart b (by simp [Action.operands]) _ _ _) fun data =>
                haction t state data
      | some a =>
          refine hR.bind (hpart a (by simp [Action.operands]) _ _ _) fun state => ?_
          cases data? with
          | none => exact hR.bind (hR.pure s.data) fun data => haction t state data
          | some b =>
              exact hR.bind (hpart b (by simp [Action.operands]) _ _ _) fun data =>
                haction t state data
  | fold start step reverse =>
      have hstep (acc : Value) (c : Tree) : R (lo.apply { s with node := c, state := acc } step)
          (hi.apply { s with node := c, state := acc } step) :=
        h _ (.operand (List.mem_cons_of_mem start List.mem_cons_self))
      refine hR.bind (h _ (.operand List.mem_cons_self)) fun v => ?_
      exact hR.foldlM (fun acc c _ => hstep acc c) v
  | make tag args =>
      refine hR.bind (hR.mapM fun a ha => h _ (.operand ha)) fun vs => ?_
      exact hR.own (Level.failsOnly_makeTree tag vs)
  | evaluate inner? => exact h _ .evaluation
  | recurse =>
      obtain ⟨root?, t, state, data⟩ := s
      refine root (fun hroot => hunbound ?_) fun g hg => ?_
      · obtain rfl : root? = none := hroot
        exact .apply
      · obtain rfl : root? = some g := Option.mem_def.mp hg
        exact h _ .applyRoot

end Kinds

include hlib in
/-- Two steps are related if all that they ask is. -/
theorem answer_above (lo : Level m) (hi : Level n) {q : Question}
    (h : ∀ q', q.Asks w q' → R (lo.answer q') (hi.answer q'))
    (hunbound : q.IsUnbound → ∀ {β : Type},
      R (MonadExcept.throw .unboundRecursion : m β) (MonadExcept.throw .unboundRecursion)) :
    R ((Level.above lib w fun _ => lo).answer q) ((Level.above lib' w fun _ => hi).answer q) := by
  cases q with
  | accepts root? t g => exact hR.acceptsStep h fun hq => hunbound hq
  | apply s a => exact hR.applyStep hlib h fun hq => hunbound hq
  | transform s g => exact hR.transformStep hlib h fun hq => hunbound hq
  | rebuild t => exact hR.rebuildStep h
  | evaluate s inner? => exact hR.evaluateStep h

end Steps

end Compatible

end

end TreeGrammar
