import TreeGrammar.Proofs.Engine.DepthLimit

/-! # Records — the steps of a run, noted as they are made

    An engine on a machine does not count the steps that are left.  It counts those made
    inside one another, in a word of 64 bits, and compares with the limit before it makes
    the next one.  `Engine.fromDepth` does so, and also notes each step: its depth, what
    it was asked, and the steps inside of it.  It gives the same outcomes as the levels.

    What is noted is one finite tree for each step at the top, the question itself unless
    the limit is zero.  From a step to those inside the depth grows by one, it never goes
    beyond the limit, and so adding one never goes around.  A grammar that leads back to
    itself before it looks at anything else meets the limit, whatever that is: its steps
    lie one inside the other, and the last one is at the limit. -/

namespace TreeGrammar

open Outcome (exceeded)

/-- A step that was made: its depth, what it was asked, and the steps inside of it in order. -/
structure Step where
  depth : UInt64
  asked : Question
  inside : List Step

/-- Outcomes of runs that note the steps they make. -/
abbrev Recorded := ExceptT Error (StateM (List Step))

/-- No step is deeper than the limit, and those inside of one are exactly one deeper than it, asked
what its question leads to. -/
inductive Step.Deepens (whenDefault : WhenDefault) (limit : UInt64) : Step → Prop
  | intro {depth asked inside} (hlimit : depth ≤ limit)
      (hasked : ∀ s ∈ inside, asked.Asks whenDefault s.asked)
      (hdepth : ∀ s ∈ inside, s.depth.toNat = depth.toNat + 1)
      (hinside : ∀ s ∈ inside, Deepens whenDefault limit s) :
      Deepens whenDefault limit ⟨depth, asked, inside⟩

namespace Recorded

instance : LawfulThrow Recorded where
  map_throw _ _ := rfl

/-- Runs a computation as one step, and notes it behind those made before. -/
def noted {α : Type} (depth : UInt64) (q : Question) (x : Recorded α) : Recorded α :=
  ExceptT.mk fun made =>
    let (outcome, inside) := x.run.run []
    (outcome, made ++ [⟨depth, q, inside⟩])

/-- The run has this outcome, and notes steps of one kind behind those made before. -/
def Gives (p : Step → Prop) {α : Type} (x : Recorded α) (o : Outcome α) : Prop :=
  ∀ made, ∃ steps, x.run.run made = (o, made ++ steps) ∧ ∀ s ∈ steps, p s

/-- An outcome of its own notes nothing. -/
theorem gives_lift {p : Step → Prop} {α : Type} (o : Outcome α) : Gives p (Outcome.lift o) o := by
  intro made
  refine ⟨[], ?_, nofun⟩
  rw [List.append_nil]
  cases o <;> rfl

theorem gives_throw {p : Step → Prop} {α : Type} (err : Error) :
    Gives p (throw err : Recorded α) (throw err) :=
  gives_lift (.error err)

/-- The steps that are noted may be of a wider kind. -/
theorem Gives.mono {p p' : Step → Prop} {α : Type} {x : Recorded α} {o : Outcome α}
    (h : Gives p x o) (hp : ∀ s, p s → p' s) : Gives p' x o := by
  intro made
  obtain ⟨steps, hrun, hsteps⟩ := h made
  exact ⟨steps, hrun, fun s hs => hp s (hsteps s hs)⟩

/-- What follows notes its steps behind those of the first part. -/
theorem compatible_gives (p : Step → Prop) : Compatible Recorded Outcome (Gives p) where
  own := by
    intro α o ho
    rw [Outcome.lift_eq o]
    exact gives_lift o
  bind := by
    intro α β x o f g hx hf made
    obtain ⟨steps, hrun, hsteps⟩ := hx made
    rw [ExceptT.run_bind, StateT.run_bind, hrun]
    cases o with
    | error err => exact ⟨steps, rfl, hsteps⟩
    | ok a =>
        obtain ⟨steps', hrun', hsteps'⟩ := hf a (made ++ steps)
        refine ⟨steps ++ steps', ?_, fun s hs => ?_⟩
        · rw [← List.append_assoc]
          exact hrun'
        · exact (List.mem_append.mp hs).elim (hsteps s) (hsteps' s)

/-- As a step of its own, a run gives the same outcome. -/
theorem Gives.noted {p : Step → Prop} {depth : UInt64} {q : Question} {α : Type} {x : Recorded α}
    {o : Outcome α} (h : Gives p x o) :
    Gives (fun s => s.depth = depth ∧ s.asked = q ∧ ∀ s' ∈ s.inside, p s')
      (Recorded.noted depth q x) o := by
  intro made
  obtain ⟨inside, hrun, hinside⟩ := h []
  refine ⟨[⟨depth, q, inside⟩], ?_, ?_⟩
  · show ((x.run.run []).1, made ++ [⟨depth, q, (x.run.run []).2⟩]) = _
    rw [hrun]
    rfl
  · intro s hs
    obtain rfl := List.mem_singleton.mp hs
    exact ⟨rfl, rfl, hinside⟩

/-- The noted step holds all that the computation noted from the start. -/
theorem run_noted (depth : UInt64) (q : Question) {α : Type} (x : Recorded α) (made : List Step) :
    (noted depth q x).run.run made
      = ((x.run.run []).1, made ++ [⟨depth, q, (x.run.run []).2⟩]) := rfl

/-- The run notes the first of some questions, in their order, behind the steps made before; at least
one of them, if there are any. -/
def Starts (qs : List Question) {α : Type} (x : Recorded α) : Prop :=
  ∀ made, ∃ o steps, x.run.run made = (o, made ++ steps) ∧ steps.map Step.asked <+: qs
    ∧ (steps = [] → qs = [])

/-- A step of its own is noted, whatever comes of it. -/
theorem starts_noted (depth : UInt64) (q : Question) {α : Type} (x : Recorded α) :
    Starts [q] (noted depth q x) := by
  intro made
  refine ⟨_, _, run_noted depth q x made, List.prefix_rfl, fun h => ?_⟩
  cases h

/-- Nothing is noted by what is only read off an outcome. -/
theorem Starts.bind_pure {qs : List Question} {α β : Type} {x : Recorded α} (h : Starts qs x)
    (f : α → β) : Starts qs (x >>= fun a => pure (f a)) := by
  intro made
  obtain ⟨o, steps, hrun, hsteps⟩ := h made
  rw [ExceptT.run_bind, StateT.run_bind, hrun]
  cases o with
  | error err => exact ⟨.error err, steps, rfl, hsteps⟩
  | ok a => exact ⟨.ok (f a), steps, rfl, hsteps⟩

/-- Nothing is noted by a choice between two values. -/
theorem Starts.branch {qs : List Question} {β : Type} {x : Recorded Bool} (h : Starts qs x)
    (yes no : β) : Starts qs (x >>= fun b => if b then pure yes else pure no) := by
  have hread : (fun b : Bool => if b then (pure yes : Recorded β) else pure no)
      = fun b => pure (if b then yes else no) := by
    funext b
    cases b <;> rfl
  rw [hread]
  exact h.bind_pure _

/-- A search over steps notes them item by item, from the first on. -/
theorem starts_firstFrom (depth : UInt64) {α : Type} (ask : α → Question) (x : α → Recorded Bool)
    (items : List α) (start : Nat) :
    Starts (items.map ask)
      (Verdict.firstFrom start (fun a => noted depth (ask a) (x a)) items) := by
  induction items generalizing start with
  | nil =>
      intro made
      refine ⟨.ok none, [], ?_, List.prefix_rfl, fun _ => rfl⟩
      rw [List.append_nil]
      rfl
  | cons a items ih =>
      intro made
      rw [Verdict.firstFrom, ExceptT.run_bind, StateT.run_bind, run_noted, List.map_cons]
      obtain ⟨o, inside⟩ := (x a).run.run []
      have hfirst : [ask a] <+: ask a :: items.map ask := List.prefix_append [ask a] _
      have hsome {steps : List Step} (h : ⟨depth, ask a, inside⟩ :: steps = []) :
          ask a :: items.map ask = [] := absurd h (List.cons_ne_nil _ _)
      -- the search goes on behind a rejected item only
      cases o with
      | error err => exact ⟨.error err, [⟨depth, ask a, inside⟩], rfl, hfirst, hsome⟩
      | ok passed =>
          cases passed with
          | true =>
              exact ⟨.ok (some (start, a)), [⟨depth, ask a, inside⟩], rfl, hfirst, hsome⟩
          | false =>
              obtain ⟨o, steps, hrun, hasked, -⟩ := ih (start + 1) (made ++ [⟨depth, ask a, inside⟩])
              refine ⟨o, ⟨depth, ask a, inside⟩ :: steps, ?_, ?_, hsome⟩
              · rw [List.append_cons made _ steps]
                exact hrun
              · exact List.cons_prefix_cons.mpr ⟨rfl, hasked⟩

/-- What follows on an error notes nothing more. -/
theorem run_bind_of_error {α β : Type} {x : Recorded α} {err : Error} {made made' : List Step}
    (h : x.run.run made = (.error err, made')) (f : α → Recorded β) :
    (x >>= f).run.run made = (.error err, made') := by
  rw [ExceptT.run_bind, StateT.run_bind, h]
  rfl

end Recorded

open Recorded (Gives)

/-- The user's computations; they make no steps. -/
def Library.recorded (lib : Library Outcome) : Library Recorded where
  function name args := Outcome.lift (lib.function name args)
  leaf name t state data := Outcome.lift (lib.leaf name t state data)

/-- The level whose every answer is noted as a step. -/
def Level.noted (depth : UInt64) (l : Level Recorded) : Level Recorded where
  accepts root? t g := Recorded.noted depth (.accepts root? t g) (l.accepts root? t g)
  apply s a := Recorded.noted depth (.apply s a) (l.apply s a)
  transform s g := Recorded.noted depth (.transform s g) (l.transform s g)
  rebuild t := Recorded.noted depth (.rebuild t) (l.rebuild t)
  evaluate s inner? := Recorded.noted depth (.evaluate s inner?) (l.evaluate s inner?)

/-- Whatever is asked of a level that notes is a step. -/
theorem Level.answer_noted (depth : UInt64) (l : Level Recorded) (q : Question) :
    (l.noted depth).answer q = Recorded.noted depth q (l.answer q) := by
  cases q <;> rfl

/-- What is tried in turn when a grammar selects. -/
def Grammar.tried : Grammar → List Grammar
  | .switch cases => cases.map (·.pattern)
  | g => g.alternatives

/-- A selection notes the grammars it tries, from the first on. -/
theorem Level.starts_select (depth : UInt64) (l : Level Recorded) (t : Tree) (g : Grammar) :
    Recorded.Starts (g.tried.map (.accepts (some g) t)) ((l.noted depth).select t g) := by
  cases g with
  | switch cases =>
      rw [Grammar.tried, List.map_map]
      exact (Recorded.starts_firstFrom depth _ _ cases 0).bind_pure (·.map Prod.fst)
  | any gs => exact (Recorded.starts_firstFrom depth _ _ gs 0).bind_pure (·.map Prod.fst)
  | _ => exact (Recorded.starts_noted depth _ _).branch (some 0) none

/-- Below a limit, adding one does not go around. -/
theorem UInt64.toNat_add_one_of_lt {a b : UInt64} (h : a < b) : (a + 1).toNat = a.toNat + 1 := by
  have hlt : a.toNat < b.toNat := UInt64.lt_iff_toNat_lt.mp h
  have hsize : b.toNat < 2 ^ 64 := b.toNat_lt
  rw [UInt64.toNat_add]
  exact Nat.mod_eq_of_lt (Nat.lt_of_le_of_lt hlt hsize)

/-- Where a step is left, the next depth is one more, and within the limit. -/
theorem UInt64.next_of_left {limit depth : UInt64} {n : Nat}
    (hn : limit.toNat - depth.toNat = n + 1) :
    depth < limit ∧ (depth + 1).toNat = depth.toNat + 1 ∧ depth + 1 ≤ limit
      ∧ limit.toNat - (depth + 1).toNat = n := by
  have hbefore : depth < limit := by
    rw [UInt64.lt_iff_toNat_lt]
    omega
  have hnext : (depth + 1).toNat = depth.toNat + 1 := UInt64.toNat_add_one_of_lt hbefore
  refine ⟨hbefore, hnext, ?_, by omega⟩
  rw [UInt64.le_iff_toNat_le]
  omega

/-- What can be done so many steps inside of a call: the next step, one deeper, if the limit is not
reached. -/
def Engine.fromDepth (lib : Library Outcome) (whenDefault : WhenDefault) (limit depth : UInt64) :
    Level Recorded :=
  if h : depth < limit then
    Level.noted (depth + 1) (.above lib.recorded whenDefault fun _ =>
      fromDepth lib whenDefault limit (depth + 1))
  else .exhausted limit.toNat
termination_by limit.toNat - depth.toNat
decreasing_by
  have hnext := UInt64.toNat_add_one_of_lt h
  have hlt : depth.toNat < limit.toNat := UInt64.lt_iff_toNat_lt.mp h
  omega

namespace Engine

section Depth

variable {lib : Library Outcome} {whenDefault : WhenDefault} {limit depth : UInt64}

/-- Before the limit, every answer is a step that is one deeper. -/
theorem fromDepth_of_lt (h : depth < limit) :
    fromDepth lib whenDefault limit depth
      = Level.noted (depth + 1) (.above lib.recorded whenDefault fun _ =>
        fromDepth lib whenDefault limit (depth + 1)) := by
  rw [fromDepth, dif_pos h]

/-- At the limit, no step is made. -/
theorem fromDepth_of_not_lt (h : ¬ depth < limit) :
    fromDepth lib whenDefault limit depth = .exhausted limit.toNat := by
  rw [fromDepth, dif_neg h]

end Depth

variable (lib : Library Outcome) (whenDefault : WhenDefault) (limit : UInt64)

/-- The step answers this question, one deeper than where it is asked, and so on inside. -/
def Answers (depth : UInt64) (q : Question) (s : Step) : Prop :=
  s.asked = q ∧ s.depth.toNat = depth.toNat + 1 ∧ s.Deepens whenDefault limit

/-- What is done so many steps inside of a call is what the level does that has the others left. -/
theorem gives_fromDepth (depth : UInt64) (q : Question) :
    Gives (Answers whenDefault limit depth q) ((fromDepth lib whenDefault limit depth).answer q)
      (((under lib whenDefault limit.toNat).level (limit.toNat - depth.toNat)).answer q) := by
  -- the induction is on the steps that are left
  obtain ⟨n, hn⟩ : ∃ n, limit.toNat - depth.toNat = n := ⟨_, rfl⟩
  rw [hn]
  induction n generalizing depth q with
  | zero =>
      have hreached : ¬ depth < limit := by
        rw [UInt64.lt_iff_toNat_lt]
        omega
      rw [fromDepth_of_not_lt hreached]
      cases q <;> exact Recorded.gives_throw _
  | succ n ih =>
      obtain ⟨hbefore, hnext, hle, hleft⟩ := UInt64.next_of_left hn
      rw [fromDepth_of_lt hbefore, Level.answer_noted]
      have hinside : Gives (fun s => q.Asks whenDefault s.asked
            ∧ s.depth.toNat = (depth + 1).toNat + 1 ∧ s.Deepens whenDefault limit)
          ((Level.above lib.recorded whenDefault fun _ =>
            fromDepth lib whenDefault limit (depth + 1)).answer q)
          (((under lib whenDefault limit.toNat).level (n + 1)).answer q) := by
        refine (Recorded.compatible_gives _).answer_above ⟨fun _ _ => Recorded.gives_lift _,
          fun _ _ _ _ => Recorded.gives_lift _⟩ _ _ (fun q' hasks => ?_)
          fun _ => Recorded.gives_throw _
        refine (ih (depth + 1) q' hleft).mono ?_
        rintro s ⟨rfl, hdepth, hdeepens⟩
        exact ⟨hasks, hdepth, hdeepens⟩
      refine hinside.noted.mono ?_
      rintro ⟨d, asked, inside⟩ ⟨rfl, rfl, hsteps⟩
      exact ⟨rfl, hnext, .intro hle (fun s hs => (hsteps s hs).1)
        (fun s hs => (hsteps s hs).2.1) fun s hs => (hsteps s hs).2.2⟩

/-- A selection asks about the grammars it tries, each a step at the top. -/
theorem gives_select (t : Tree) (g : Grammar) :
    Gives (fun s => ∃ g', Answers whenDefault limit 0 (.accepts (some g) t g') s)
      ((fromDepth lib whenDefault limit 0).select t g)
      ((under lib whenDefault limit.toNat).select t g) := by
  rw [select_eq]
  refine (Recorded.compatible_gives _).select _ _ fun g' => ?_
  exact (gives_fromDepth lib whenDefault limit 0 (.accepts (some g) t g')).mono fun s hs => ⟨g', hs⟩

end Engine

/-! ## Grammars that lead back to themselves first -/

/-- The first thing that is asked is whether the enclosing grammar accepts the tree itself. -/
inductive Grammar.IsHeadRecursive : Grammar → Prop
  | recurse : IsHeadRecursive .recurse
  | all {g gs} (h : IsHeadRecursive g) : IsHeadRecursive (.all (g :: gs))
  | any {g gs} (h : IsHeadRecursive g) : IsHeadRecursive (.any (g :: gs))
  | except {g} (h : IsHeadRecursive g) : IsHeadRecursive (.except g)
  | switch {c cases} (h : IsHeadRecursive c.pattern) : IsHeadRecursive (.switch (c :: cases))

/-- Steps down to the limit, each of them the only one inside of the one before, and asked whether the
tree is accepted by a head-recursive grammar. -/
inductive Step.Chain (limit : UInt64) (t : Tree) (root : Grammar) : UInt64 → List Step → Prop
  | reached : Chain limit t root limit []
  | deeper {depth g inside} (h : depth < limit) (hg : g.IsHeadRecursive)
      (hinside : Chain limit t root (depth + 1) inside) :
      Chain limit t root depth [⟨depth + 1, .accepts (some root) t g, inside⟩]

namespace Engine

section HeadRecursion

variable {m : Type → Type} [Monad m] [LawfulMonad m] [MonadExcept Error m] (below : Level m)
  (t : Tree) {root g : Grammar}

/-- The first thing that a step inside of a head-recursive grammar does is to ask about such a grammar
on the same tree. -/
theorem acceptsStep_of_isHeadRecursive (hroot : root.IsHeadRecursive) (hg : g.IsHeadRecursive) :
    ∃ g' : Grammar, g'.IsHeadRecursive ∧ ∃ f : Bool → m Bool,
      Level.acceptsStep below (some root) t g = below.accepts (some root) t g' >>= f := by
  cases hg with
  | recurse =>
      refine ⟨root, hroot, pure, ?_⟩
      show (pure root >>= fun g => below.accepts (some root) t g) = _
      rw [pure_bind, bind_pure]
  | all hg => exact ⟨_, hg, _, rfl⟩
  | any hg => exact ⟨_, hg, _, rfl⟩
  | except hg => exact ⟨_, hg, _, map_eq_pure_bind _ _⟩
  | switch hg => exact ⟨_, hg, _, rfl⟩

end HeadRecursion

/-- Inside of a head-recursive grammar such grammars are never done with the first thing. -/
theorem accepts_of_isHeadRecursive (e : Engine Outcome) (n : Nat) (t : Tree) {root g : Grammar}
    (hroot : root.IsHeadRecursive) (hg : g.IsHeadRecursive) :
    (e.level n).accepts (some root) t g = exceeded e.config.maxDepth := by
  induction n generalizing g with
  | zero => rfl
  | succ n ih =>
      obtain ⟨g', hg', f, hstep⟩ := acceptsStep_of_isHeadRecursive (e.level n) t hroot hg
      show Level.acceptsStep (e.level n) (some root) t g = _
      rw [hstep, ih hg']
      rfl

/-- The run makes one step inside the other until the limit is reached. -/
theorem run_of_isHeadRecursive (lib : Library Outcome) (whenDefault : WhenDefault)
    (limit : UInt64) {depth : UInt64} (hdepth : depth ≤ limit) (t : Tree) {root g : Grammar}
    (hroot : root.IsHeadRecursive) (hg : g.IsHeadRecursive) (made : List Step) :
    ∃ steps, ((fromDepth lib whenDefault limit depth).accepts (some root) t g).run.run made
        = (exceeded limit.toNat, made ++ steps) ∧ Step.Chain limit t root depth steps := by
  obtain ⟨n, hn⟩ : ∃ n, limit.toNat - depth.toNat = n := ⟨_, rfl⟩
  have hle : depth.toNat ≤ limit.toNat := UInt64.le_iff_toNat_le.mp hdepth
  induction n generalizing depth g made with
  | zero =>
      obtain rfl : depth = limit := UInt64.toNat_inj.mp (by omega)
      refine ⟨[], ?_, .reached⟩
      rw [fromDepth_of_not_lt (UInt64.lt_irrefl depth), List.append_nil]
      rfl
  | succ n ih =>
      obtain ⟨hbefore, -, hle', hleft⟩ := UInt64.next_of_left hn
      obtain ⟨g', hg', f, hstep⟩ := acceptsStep_of_isHeadRecursive
        (fromDepth lib whenDefault limit (depth + 1)) t hroot hg
      obtain ⟨inside, hrun, hchain⟩ := ih hle' hg' [] hleft (UInt64.le_iff_toNat_le.mp hle')
      refine ⟨[⟨depth + 1, .accepts (some root) t g, inside⟩], ?_, .deeper hbefore hg hchain⟩
      rw [fromDepth_of_lt hbefore]
      show (Recorded.noted (depth + 1) (.accepts (some root) t g) (Level.acceptsStep
        (fromDepth lib whenDefault limit (depth + 1)) (some root) t g)).run.run made = _
      rw [Recorded.run_noted, hstep, Recorded.run_bind_of_error hrun]
      rfl

/-- Whatever is asked of the engine, and whatever it selects, is the outcome of a run that counts its
depth in a word.  The steps of the run are finitely many, the first ones have depth one, and from a
step to those inside the depth grows by one and stays within the limit.  Unless the limit is zero, the
question is itself a step, and so are the first grammars that are tried for a selection.  A
head-recursive grammar exceeds every limit, on every tree, by steps one inside the other. -/
theorem steps_within_limit (lib : Library Outcome) (whenDefault : WhenDefault) (limit : UInt64) :
    (∀ q : Question, ∃ steps,
        ((fromDepth lib whenDefault limit 0).answer q).run.run []
          = ((under lib whenDefault limit.toNat).top.answer q, steps)
        ∧ (0 < limit → steps.map Step.asked = [q])
        ∧ ∀ s ∈ steps, s.asked = q ∧ s.depth.toNat = 1 ∧ s.Deepens whenDefault limit)
      ∧ (∀ t g, ∃ steps,
        ((fromDepth lib whenDefault limit 0).select t g).run.run []
          = ((under lib whenDefault limit.toNat).select t g, steps)
        ∧ (0 < limit → steps.map Step.asked <+: g.tried.map (.accepts (some g) t)
          ∧ (steps = [] → g.tried = []))
        ∧ ∀ s ∈ steps, (∃ g', s.asked = .accepts (some g) t g') ∧ s.depth.toNat = 1
          ∧ s.Deepens whenDefault limit)
      ∧ ∀ g : Grammar, g.IsHeadRecursive → ∀ t,
        (under lib whenDefault limit.toNat).accepts t g = exceeded limit.toNat
        ∧ ∃ steps, ((fromDepth lib whenDefault limit 0).accepts (some g) t g).run.run []
            = (exceeded limit.toNat, steps)
          ∧ Step.Chain limit t g 0 steps := by
  refine ⟨fun q => ?_, fun t g => ?_, fun g hg t => ⟨accepts_of_isHeadRecursive _ _ t hg hg, ?_⟩⟩
  · obtain ⟨steps, hrun, hsteps⟩ := gives_fromDepth lib whenDefault limit 0 q []
    refine ⟨steps, hrun, fun h => ?_, hsteps⟩
    rw [fromDepth_of_lt h, Level.answer_noted, Recorded.run_noted] at hrun
    have hnoted : [_] = steps := (Prod.mk.inj hrun).2
    rw [← hnoted]
    rfl
  · obtain ⟨steps, hrun, hsteps⟩ := gives_select lib whenDefault limit t g []
    refine ⟨steps, hrun, fun h => ?_, fun s hs => ?_⟩
    · obtain ⟨o, steps', hrun', hasked, hnone⟩ :=
        Level.starts_select (0 + 1) (.above lib.recorded whenDefault fun _ =>
          fromDepth lib whenDefault limit (0 + 1)) t g []
      rw [fromDepth_of_lt h, hrun'] at hrun
      obtain rfl : steps' = steps := (Prod.mk.inj hrun).2
      exact ⟨hasked, fun hnil => List.map_eq_nil_iff.mp (hnone hnil)⟩
    · obtain ⟨g', hasked, hdepth, hdeepens⟩ := hsteps s hs
      exact ⟨⟨g', hasked⟩, hdepth, hdeepens⟩
  · exact run_of_isHeadRecursive lib whenDefault limit UInt64.zero_le t hg hg []

/-- A conjunction with its two members inside of it, a grammar that accepts what it rejects, down to
the third step, and a switch whose first case asks for all of itself. -/
theorem steps_within_limit_paradox :
    (∃ steps, ((fromDepth (.constant .unit) .pattern 2 0).accepts none (.leaf .unit)
          (.all [.wildcard, .terminal none])).run.run [] = (.ok true, steps)
        ∧ steps = [⟨1, .accepts none (.leaf .unit) (.all [.wildcard, .terminal none]),
          [⟨2, .accepts none (.leaf .unit) .wildcard, []⟩,
            ⟨2, .accepts none (.leaf .unit) (.terminal none), []⟩]⟩]
        ∧ ∀ s ∈ steps, s.Deepens .pattern 2)
      ∧ ((fromDepth (.constant .unit) .pattern 3 0).accepts (some (.except .recurse)) (.leaf .unit)
          (.except .recurse)).run.run []
        = (exceeded 3, [⟨1, .accepts (some (.except .recurse)) (.leaf .unit) (.except .recurse),
          [⟨2, .accepts (some (.except .recurse)) (.leaf .unit) .recurse,
            [⟨3, .accepts (some (.except .recurse)) (.leaf .unit) (.except .recurse), []⟩]⟩]⟩])
      ∧ (under (.constant .unit) .passThrough (UInt64.toNat 18446744073709551615)).accepts
        (.node (.user "f") [.leaf (.int 1)])
        (.switch [⟨.all [.any [.recurse, .wildcard], .terminal none], []⟩, ⟨.wildcard, []⟩])
        = exceeded 18446744073709551615 := by
  refine ⟨?_, ?_, ?_⟩
  · obtain ⟨steps, hrun, -, hsteps⟩ := (steps_within_limit (.constant .unit) .pattern 2).1
      (.accepts none (.leaf .unit) (.all [.wildcard, .terminal none]))
    refine ⟨steps, hrun, ?_, fun s hs => (hsteps s hs).2.2⟩
    rw [fromDepth_of_lt (by decide), fromDepth_of_lt (by decide)] at hrun
    exact (Prod.mk.inj hrun).2.symm
  · rw [fromDepth_of_lt (by decide), fromDepth_of_lt (by decide), fromDepth_of_lt (by decide),
      fromDepth_of_not_lt (by decide)]
    rfl
  · exact ((steps_within_limit (.constant .unit) .passThrough 18446744073709551615).2.2 _
      (.switch (.all (.any .recurse))) _).1

end Engine

end TreeGrammar
