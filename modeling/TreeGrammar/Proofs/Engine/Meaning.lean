import TreeGrammar.Proofs.Engine.DepthLimit
import TreeGrammar.Proofs.Grammar.Reading
import TreeGrammar.Proofs.Signature
import TreeGrammar.Proofs.Verdict

/-! # Meaning — the matcher computes the reading

    Matching a pattern takes one nested step for each constructor on the way down, and
    starts again at the grammar wherever it meets `recurse`.  In a guarded grammar the
    tree is less deep each time, so the height of the grammar for every level of the
    tree is enough.  Without conditions nothing else can fail.  A switch then runs the
    first case whose pattern is read to accept the tree. -/

namespace TreeGrammar

open Outcome (exceeded CutAt congruence_cutAt)

/-! ## Lists of tests that answer -/

section Lists

variable {α : Type} {p : α → Outcome Bool} {q : α → Bool}

/-- Tests that never fail pass together exactly if each does. -/
theorem allM_eq_ok {l : List α} (h : ∀ a ∈ l, p a = .ok (q a)) : l.allM p = .ok (l.all q) := by
  induction l with
  | nil => rfl
  | cons a l ih =>
      have htail := ih fun a ha => h a (List.mem_cons_of_mem _ ha)
      rw [List.allM, h a (List.mem_cons_self ..), List.all_cons]
      cases q a with
      | true => exact htail
      | false => rfl

/-- Some of the tests that never fail passes exactly if one does. -/
theorem anyM_eq_ok {l : List α} (h : ∀ a ∈ l, p a = .ok (q a)) : l.anyM p = .ok (l.any q) := by
  induction l with
  | nil => rfl
  | cons a l ih =>
      have htail := ih fun a ha => h a (List.mem_cons_of_mem _ ha)
      rw [List.anyM, h a (List.mem_cons_self ..), List.any_cons]
      cases q a with
      | true => rfl
      | false => exact htail

theorem guard_eq_ok {o : Outcome Bool} {c : Bool} (b : Bool) (h : o = .ok c) :
    (if b then o else pure false) = .ok (b && c) := by
  rw [h]
  cases b <;> rfl

theorem unless_eq_ok {o : Outcome Bool} {c : Bool} (b : Bool) (h : o = .ok c) :
    (if b then pure false else o) = .ok (!b && c) := by
  rw [h]
  cases b <;> rfl

end Lists

namespace Grammar

variable {p : Grammar → Tree → Bool}

/-- As many patterns as children, and every pair passes. -/
theorem each_map (gs : List Grammar) (cs : List Tree) :
    each (gs.map p) cs = (cs.length == gs.length && (gs.zip cs).all fun q => p q.1 q.2) := by
  induction gs generalizing cs with
  | nil => cases cs <;> rfl
  | cons g gs ih =>
      cases cs with
      | nil => rfl
      | cons c cs =>
          show (p g c && each (gs.map p) cs)
            = (cs.length + 1 == gs.length + 1
              && (p g c && (gs.zip cs).all fun q => p q.1 q.2))
          have hlength : (cs.length + 1 == gs.length + 1) = (cs.length == gs.length) := by simp
          rw [ih, hlength]
          cases p g c with
          | true => rfl
          | false => rw [Bool.false_and, Bool.false_and, Bool.and_false]

/-- No fewer children than patterns in front, and every child passes the pattern in its place. -/
theorem eachThen_map (rest : Grammar) (gs : List Grammar) (cs : List Tree) :
    eachThen (p rest) (gs.map p) cs
      = (!decide (cs.length < gs.length)
        && cs.zipIdx.all fun q => p (Level.patternAt gs rest q.2) q.1) := by
  induction gs generalizing cs with
  | nil =>
      show cs.all (p rest) = cs.zipIdx.all (p rest ∘ Prod.fst)
      rw [← List.all_map, List.zipIdx_map_fst]
  | cons g gs ih =>
      cases cs with
      | nil => rfl
      | cons c cs =>
          rw [List.zipIdx_cons, List.zipIdx_succ, List.all_cons, List.all_map]
          show (p g c && eachThen (p rest) (gs.map p) cs)
            = (!decide (cs.length + 1 < gs.length + 1)
              && (p g c && cs.zipIdx.all fun q => p (Level.patternAt gs rest q.2) q.1))
          have hlength : decide (cs.length + 1 < gs.length + 1)
              = decide (cs.length < gs.length) := by simp
          rw [ih, hlength]
          cases p g c with
          | true => rfl
          | false => rw [Bool.false_and, Bool.false_and, Bool.and_false]

/-! ## Enough steps -/

/-- So many steps are enough to ask a part of a grammar about a tree, where the tree may still
become less deep by so many levels. -/
structure Sufficient (root : Grammar) (levels : Nat) (g : Grammar) (t : Tree) (steps : Nat) :
    Prop where
  unconditional : g.isUnconditional = true
  asks : AsksWithin levels g t
  enough : g.height + levels * root.height ≤ steps

namespace Sufficient

variable {root g g' : Grammar} {levels steps : Nat} {t c : Tree}

/-- Steps that suffice are at least one. -/
theorem pos (h : Sufficient root levels g t steps) : 0 < steps :=
  Nat.lt_of_lt_of_le (Nat.add_pos_left g.height_pos _) h.enough

/-- One step less suffices for what is asked about the same tree. -/
theorem beside (h : Sufficient root levels g t (steps + 1)) (hg : g' ∈ g.beside) :
    Sufficient root levels g' t steps where
  unconditional := isUnconditional_beside h.unconditional hg
  asks := h.asks.beside hg
  enough := by
    have := height_beside hg
    have := h.enough
    omega

/-- One step less suffices for what is asked about a child. -/
theorem child (h : Sufficient root levels g t (steps + 1)) (hg : g' ∈ g.beneath)
    (hc : c ∈ t.children) : Sufficient root levels g' c steps where
  unconditional := isUnconditional_beneath h.unconditional hg
  asks := h.asks.child hc
  enough := by
    have := height_beneath hg
    have := h.enough
    omega

/-- Where the grammar starts again, a level of the tree has been left behind. -/
theorem recurse (hroot : root.isUnconditional = true) (hguarded : root.isGuarded = true)
    (h : Sufficient root levels .recurse t (steps + 1)) :
    Sufficient root (levels - 1) root t steps := by
  have hdepth := h.asks.recurse
  have hpos := t.depth_pos
  obtain ⟨levels, rfl⟩ : ∃ k, levels = k + 1 := ⟨levels - 1, by omega⟩
  -- the step for `recurse` itself is the one that is gone
  refine ⟨hroot, Or.inr ⟨hdepth, hguarded⟩, ?_⟩
  have henough : 1 + (levels + 1) * root.height ≤ steps + 1 := h.enough
  rw [Nat.succ_mul] at henough
  show root.height + levels * root.height ≤ steps
  omega

/-- At the top the height for every level of the tree is enough. -/
theorem top {g : Grammar} (hg : g.isUnconditional = true) (hguarded : g.isGuarded = true)
    (h : t.depth * g.height ≤ steps) : Sufficient g (t.depth - 1) g t steps := by
  have hpos := t.depth_pos
  refine ⟨hg, Or.inr ⟨by omega, hguarded⟩, ?_⟩
  obtain ⟨k, hk⟩ : ∃ k, t.depth = k + 1 := ⟨t.depth - 1, by omega⟩
  rw [hk, Nat.succ_mul] at h
  rw [hk, Nat.add_sub_cancel]
  omega

end Sufficient

end Grammar

open Grammar (Sufficient)

namespace Level

variable {lo : Level Outcome} {root g : Grammar} {again : Tree → Bool} {levels steps : Nat}
  {t : Tree}

/-- One step of the matcher is one step of the reading. -/
theorem acceptsStep_eq_reading (hroot : root.isUnconditional = true)
    (hguarded : root.isGuarded = true) (hagain : ∀ t, again t = root.readingIn again t)
    (hlo : ∀ {levels g t}, Sufficient root levels g t steps →
      lo.accepts (some root) t g = .ok (g.readingIn again t))
    (h : Sufficient root levels g t (steps + 1)) :
    acceptsStep lo (some root) t g = .ok (g.readingIn again t) := by
  have hpart : ∀ g' ∈ g.beside, lo.accepts (some root) t g' = .ok (g'.readingIn again t) :=
    fun g' hg' => hlo (h.beside hg')
  have hchild : ∀ g' ∈ g.beneath, ∀ c ∈ t.children,
      lo.accepts (some root) c g' = .ok (g'.readingIn again c) :=
    fun g' hg' c hc => hlo (h.child hg' hc)
  cases g with
  | wildcard => rfl
  | exact s => exact congrArg Except.ok (s.describes_eq t)
  | terminal kind? => cases t <;> rfl
  | literal l => cases t <;> rfl
  | node tag? gs =>
      have hpairs : (gs.zip t.children).allM (fun q => lo.accepts (some root) q.2 q.1)
          = .ok ((gs.zip t.children).all fun q => q.1.readingIn again q.2) :=
        allM_eq_ok fun q hq => hchild q.1 (List.of_mem_zip hq).1 q.2 (List.of_mem_zip hq).2
      rw [Grammar.readingIn, Grammar.readingsIn_eq, Grammar.each_map, ← Bool.and_assoc]
      exact guard_eq_ok _ hpairs
  | vararg tag? leading rest =>
      have hplaces : t.children.zipIdx.allM
          (fun q => lo.accepts (some root) q.1 (patternAt leading rest q.2))
          = .ok (t.children.zipIdx.all fun q => (patternAt leading rest q.2).readingIn again q.1) :=
        allM_eq_ok fun q hq => hchild _ (patternAt_mem leading rest q.2) q.1
          (List.fst_mem_of_mem_zipIdx hq)
      -- the matcher refuses in one test what the reading demands in three
      rw [Grammar.readingIn, Grammar.readingsIn_eq, Grammar.eachThen_map, ← Bool.and_assoc,
        ← Bool.not_not (tag?.all _), ← Bool.not_or, ← Bool.not_or]
      exact unless_eq_ok _ hplaces
  | all gs =>
      rw [Grammar.readingIn, Grammar.readingsIn_eq, List.all_map]
      exact allM_eq_ok hpart
  | any gs =>
      rw [Grammar.readingIn, Grammar.readingsIn_eq, List.any_map]
      exact anyM_eq_ok hpart
  | except g =>
      rw [acceptsStep, hpart g (List.mem_singleton.mpr rfl)]
      rfl
  | choose c yes no => cases h.unconditional
  | switch cases =>
      rw [Grammar.readingIn, Grammar.caseReadingsIn_eq, List.any_map]
      exact anyM_eq_ok fun c hc => hpart c.pattern (List.mem_map_of_mem hc)
  | recurse =>
      show lo.accepts (some root) t root = .ok (again t)
      rw [hagain]
      exact hlo (h.recurse hroot hguarded)

end Level

/-- With enough steps the matcher answers what the reading says. -/
theorem Engine.accepts_level (e : Engine Outcome) {root : Grammar} {again : Tree → Bool}
    (hroot : root.isUnconditional = true) (hguarded : root.isGuarded = true)
    (hagain : ∀ t, again t = root.readingIn again t) (steps : Nat) :
    ∀ {levels g t}, Sufficient root levels g t steps →
      (e.level steps).accepts (some root) t g = .ok (g.readingIn again t) := by
  -- the levels are general, since `recurse` has fewer of them below it
  induction steps with
  | zero =>
      intro levels g t h
      exact absurd h.pos (Nat.lt_irrefl 0)
  | succ steps ih =>
      intro levels g t h
      exact Level.acceptsStep_eq_reading hroot hguarded hagain ih h

namespace Engine

variable (e : Engine Outcome)

/-- The parts that are asked about the tree itself need one step less than the whole. -/
theorem accepts_beside {root g : Grammar} (hroot : root.isUnconditional = true)
    (hguarded : root.isGuarded = true) (hg : g ∈ root.beside) {n : Nat} {t : Tree}
    (hdepth : t.depth * root.height ≤ n + 1) :
    (e.level n).accepts (some root) t g = .ok (g.readingIn root.reading t) :=
  e.accepts_level hroot hguarded (Grammar.reading_eq hguarded) n
    ((Sufficient.top hroot hguarded hdepth).beside hg)

/-! ## Switches -/

section Switches

variable {cases : List Case} (hroot : (Grammar.switch cases).isUnconditional = true)
  (hguarded : (Grammar.switch cases).isGuarded = true)

include hroot hguarded

/-- With enough steps the search among the cases of a switch ends at the first whose pattern is read
to accept the tree. -/
theorem firstCase_eq_find? {n : Nat} {t : Tree}
    (hdepth : t.depth * (Grammar.switch cases).height ≤ n + 1) :
    Option.map Prod.snd <$> (e.level n).firstCase (some (.switch cases)) t cases
      = .ok (cases.find? fun c => c.pattern.readingIn (Grammar.switch cases).reading t) :=
  Verdict.first_eq_find? fun _ hc =>
    e.accepts_beside hroot hguarded (List.mem_map_of_mem hc) hdepth

/-- With enough steps a switch runs the body of that case, or refuses the tree if there is none. -/
theorem transform_switch {n : Nat} {t : Tree}
    (hdepth : t.depth * (Grammar.switch cases).height ≤ n + 1) (state data : Value) :
    (e.level (n + 1)).transform ⟨some (.switch cases), t, state, data⟩ (.switch cases)
      = match cases.find? fun c => c.pattern.readingIn (Grammar.switch cases).reading t with
        | some c => Level.caseStep (e.level n) e.library ⟨some (.switch cases), t, state, data⟩ c
        | none => .error (Level.noMatch t) := by
  have hfind := e.firstCase_eq_find? hroot hguarded hdepth
  show Level.transformStep (e.level n) e.library _ (.switch cases) = _
  rw [Level.transformStep]
  match hfirst : (e.level n).firstCase (some (.switch cases)) t cases with
  | .error err =>
      rw [hfirst] at hfind
      cases hfind
  | .ok none =>
      rw [hfirst] at hfind
      rw [← Except.ok.inj hfind]
      rfl
  | .ok (some (i, c)) =>
      rw [hfirst] at hfind
      rw [← Except.ok.inj hfind]
      rfl

/-- With any number of steps a switch that has a value has it from the body of that case. -/
theorem of_transform_switch {n : Nat} {t : Tree} {state data v : Value}
    (h : (e.level n).transform ⟨some (.switch cases), t, state, data⟩ (.switch cases) = .ok v) :
    ∃ m c, n = m + 1
      ∧ (cases.find? fun c => c.pattern.readingIn (Grammar.switch cases).reading t) = some c
      ∧ Level.caseStep (e.level m) e.library ⟨some (.switch cases), t, state, data⟩ c = .ok v := by
  cases n with
  | zero => cases h
  | succ m =>
      change Level.transformStep (e.level m) e.library _ (.switch cases) = .ok v at h
      rw [Level.transformStep] at h
      obtain ⟨found?, hfirst, h⟩ := Verdict.of_bind_eq_ok h
      -- with more steps, enough of them, the search ends in the same place
      have hmore : Level.Related (CutAt e.config.maxDepth) (e.level m)
          (e.level (max m (t.depth * (Grammar.switch cases).height))) :=
        related_cutAt (Nat.le_max_left _ _)
      have hfind := e.firstCase_eq_find? hroot hguarded
        (Nat.le_succ_of_le (Nat.le_max_right m (t.depth * (Grammar.switch cases).height)))
      rw [(hmore.firstCase (congruence_cutAt _) (some (.switch cases)) t cases).eq_ok hfirst]
        at hfind
      match found?, h with
      | some (i, c), h => exact ⟨m, c, rfl, (Except.ok.inj hfind).symm, h⟩

end Switches

end Engine

/-! ## The only error -/

/-- The outcome is a verdict, unless it is cut short at the limit. -/
def VerdictOrCut (limit : Nat) (o : Outcome Bool) : Prop :=
  (∃ b, o = .ok b) ∨ o = exceeded limit

namespace VerdictOrCut

variable {limit : Nat} {α : Type} {p : α → Outcome Bool} {l : List α}

theorem ok (b : Bool) : VerdictOrCut limit (.ok b) :=
  Or.inl ⟨b, rfl⟩

theorem negate {o : Outcome Bool} (h : VerdictOrCut limit o) :
    VerdictOrCut limit (Verdict.negate o) := by
  rcases h with ⟨b, rfl⟩ | rfl
  · exact ok (!b)
  · exact Or.inr rfl

theorem allM (h : ∀ a ∈ l, VerdictOrCut limit (p a)) : VerdictOrCut limit (l.allM p) := by
  induction l with
  | nil => exact ok true
  | cons a l ih =>
      have htail := ih fun a ha => h a (List.mem_cons_of_mem _ ha)
      rw [List.allM]
      rcases h a (List.mem_cons_self ..) with ⟨b, hb⟩ | hcut
      · rw [hb]
        cases b with
        | true => exact htail
        | false => exact ok false
      · rw [hcut]
        exact Or.inr rfl

theorem anyM (h : ∀ a ∈ l, VerdictOrCut limit (p a)) : VerdictOrCut limit (l.anyM p) := by
  induction l with
  | nil => exact ok false
  | cons a l ih =>
      have htail := ih fun a ha => h a (List.mem_cons_of_mem _ ha)
      rw [List.anyM]
      rcases h a (List.mem_cons_self ..) with ⟨b, hb⟩ | hcut
      · rw [hb]
        cases b with
        | true => exact ok true
        | false => exact htail
      · rw [hcut]
        exact Or.inr rfl

/-- One step, if asking for parts without conditions fails in no other way. -/
theorem acceptsStep {lo : Level Outcome} {root : Grammar} (hroot : root.isUnconditional = true)
    (hlo : ∀ t g, g.isUnconditional = true → VerdictOrCut limit (lo.accepts (some root) t g))
    (t : Tree) {g : Grammar} (hg : g.isUnconditional = true) :
    VerdictOrCut limit (Level.acceptsStep lo (some root) t g) := by
  have hpart : ∀ g' ∈ g.beside, VerdictOrCut limit (lo.accepts (some root) t g') :=
    fun g' hg' => hlo t g' (Grammar.isUnconditional_beside hg hg')
  have hchild : ∀ g' ∈ g.beneath, ∀ c, VerdictOrCut limit (lo.accepts (some root) c g') :=
    fun g' hg' c => hlo c g' (Grammar.isUnconditional_beneath hg hg')
  cases g with
  | wildcard => exact ok _
  | exact s => exact ok _
  | terminal kind? => exact ok _
  | literal l => exact ok _
  | node tag? gs =>
      rw [Level.acceptsStep]
      split
      · exact allM fun q hq => hchild q.1 (List.of_mem_zip hq).1 q.2
      · exact ok false
  | vararg tag? leading rest =>
      rw [Level.acceptsStep]
      split
      · exact ok false
      · exact allM fun q hq => hchild _ (Level.patternAt_mem leading rest q.2) q.1
  | all gs => exact allM hpart
  | any gs => exact anyM hpart
  | except g => exact (hpart g (List.mem_singleton.mpr rfl)).negate
  | choose c yes no => cases hg
  | switch cases => exact anyM fun c hc => hpart c.pattern (List.mem_map_of_mem hc)
  | recurse => exact hlo t root hroot

/-- A grammar without conditions gives a verdict or is cut short, at every level. -/
theorem level (e : Engine Outcome) {root : Grammar} (hroot : root.isUnconditional = true)
    (n : Nat) : ∀ t g, g.isUnconditional = true →
      VerdictOrCut e.config.maxDepth ((e.level n).accepts (some root) t g) := by
  induction n with
  | zero =>
      intro t g hg
      exact Or.inr rfl
  | succ n ih =>
      intro t g hg
      exact acceptsStep hroot ih t hg

end VerdictOrCut

/-- A grammar without conditions that only starts again below children is accepted by the trees it
is read to describe, if there is a step for each constructor on its longest path and each level of
the tree.  Without conditions there is no other error than that of the limit. -/
theorem Engine.accepts_eq_reading (e : Engine Outcome) (g : Grammar)
    (hg : g.isUnconditional = true) :
    (g.isGuarded = true →
        (∀ t, g.reading t = g.readingIn g.reading t)
          ∧ ∀ t, t.depth * g.height ≤ e.config.maxDepth → e.accepts t g = .ok (g.reading t))
      ∧ ∀ t, (∃ b, e.accepts t g = .ok b) ∨ e.accepts t g = exceeded e.config.maxDepth := by
  constructor
  · intro hguarded
    have hreading := Grammar.reading_eq hguarded
    refine ⟨hreading, ?_⟩
    intro t hdepth
    rw [hreading]
    exact e.accepts_level hg hguarded hreading _ (Sufficient.top hg hguarded hdepth)
  · intro t
    exact VerdictOrCut.level e hg e.config.maxDepth t g hg

/-- Integers and sums nested on the left: four levels of a tree and a grammar of height four take no
more than sixteen steps. -/
theorem Engine.accepts_eq_reading_sums :
    (Engine.under (.constant .unit) .pattern 16).accepts
        (.node (.builtin .plus)
          [.node (.builtin .plus)
            [.node (.builtin .plus) [.leaf (.int 1), .leaf (.int 2)], .leaf (.int 3)],
          .leaf (.int 4)])
        (.any [.terminal (some .int),
          .vararg (some (.builtin .plus)) [.recurse] (.except (.terminal (some .str)))])
      = .ok true :=
  ((Engine.accepts_eq_reading _ _ rfl).1 rfl).2 _ (by decide)

end TreeGrammar
