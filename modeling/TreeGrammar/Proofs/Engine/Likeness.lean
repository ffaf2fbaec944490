import TreeGrammar.Proofs.Engine.DepthLimit
import TreeGrammar.Proofs.Tree.Equality
import TreeGrammar.Proofs.Tree.Place
import TreeGrammar.Proofs.Verdict

/-! # Likeness — what a grammar can see of a tree

    A pattern looks at the tag of a tree, at its arity and at the literal of a leaf, and a
    literal it compares with others or asks for its kind.  Trees that are alike look the
    same to every pattern, though one may hold `0.0` where the other holds `-0.0`.  So
    without conditions, in which actions see more, matching and selecting cannot tell
    them apart at any depth.  The pattern of a signature sees less: no more than the
    labels at all places of the tree. -/

namespace TreeGrammar

/-! ## Lists that are alike in pairs -/

section Pairs

variable {α β γ : Type} {R : α → β → Prop} {l : List α} {l' : List β}

theorem forall₂_zip (h : List.Forall₂ R l l') (ks : List γ) :
    List.Forall₂ (fun p q => p.1 = q.1 ∧ p.1 ∈ ks ∧ R p.2 q.2) (ks.zip l) (ks.zip l') := by
  induction h generalizing ks with
  | nil =>
      rw [List.zip_nil_right, List.zip_nil_right]
      exact .nil
  | cons hhead _ ih =>
      cases ks with
      | nil => exact .nil
      | cons k ks =>
          refine .cons ⟨rfl, List.mem_cons_self, hhead⟩ ((ih ks).imp fun p q hpair => ?_)
          exact ⟨hpair.1, List.mem_cons_of_mem k hpair.2.1, hpair.2.2⟩

theorem forall₂_zipIdx (h : List.Forall₂ R l l') (start : Nat) :
    List.Forall₂ (fun p q => p.2 = q.2 ∧ R p.1 q.1) (l.zipIdx start) (l'.zipIdx start) := by
  induction h generalizing start with
  | nil => exact .nil
  | cons hhead _ ih => exact .cons ⟨rfl, hhead⟩ (ih (start + 1))

/-- Tests that agree in pairs have one verdict. -/
theorem Verdict.allM_of_forall₂ {m : Type → Type} [Monad m] {p : α → m Bool} {q : β → m Bool}
    (h : List.Forall₂ (fun a b => p a = q b) l l') : l.allM p = l'.allM q := by
  induction h with
  | nil => rfl
  | cons hhead _ ih => rw [List.allM, List.allM, hhead, ih]

end Pairs

/-! ## One look at trees that are alike -/

namespace Literal

/-- Literals that are equal are equal to the same ones. -/
theorem equal_congr {u v : Literal} (h : u.equal v = true) (w : Literal) :
    u.equal w = v.equal w := by
  rw [Bool.eq_iff_iff]
  exact ⟨equal_trans ((equal_comm v u).trans h), equal_trans h⟩

end Literal

namespace Tree.Alike

variable {a b : Tree} (h : Alike a b)

include h

/-- Trees that are alike have the same tag, as many children and equal literals. -/
theorem sameHead : a.tag = b.tag ∧ a.arity = b.arity ∧ sameValue a.value? b.value? = true := by
  have hhead : Tree.sameHead a b = true := (alike_step_iff.mp h).1
  rw [Tree.sameHead, Bool.and_eq_true, Bool.and_eq_true, beq_iff_eq, beq_iff_eq] at hhead
  exact ⟨hhead.1.1, hhead.1.2, hhead.2⟩

/-- The children of trees that are alike are alike place by place. -/
theorem children : List.Forall₂ Alike a.children b.children :=
  (alike_step_iff.mp h).2

theorem tagAccepts (tag? : Option Tag) : Level.tagAccepts tag? a = Level.tagAccepts tag? b := by
  rw [Level.tagAccepts, Level.tagAccepts, h.sameHead.1]

theorem isTerminal : a.isTerminal = b.isTerminal := by
  rw [Tree.isTerminal, Tree.isTerminal, h.sameHead.2.1]

/-- A test that equal literals pass alike has one answer on the leaves. -/
theorem any_value? {test : Literal → Bool}
    (htest : ∀ {v w : Literal}, v.equal w = true → test v = test w) :
    a.value?.any test = b.value?.any test := by
  have hvalues := h.sameHead.2.2
  match a.value?, b.value?, hvalues with
  | none, none, _ => rfl
  | some v, some w, hvalues => exact htest hvalues

/-- A signature describes both or neither of them. -/
theorem describes (s : Signature) : s.describes a = s.describes b := by
  rw [s.describes_eq, s.describes_eq, h.signature]

end Tree.Alike

section Engines

variable {m : Type → Type} [Monad m] [MonadExcept Error m]

/-! ## The pattern of a signature -/

namespace Engine

variable (e : Engine m)

/-- Above the limit the exact pattern of a tree compares signatures. -/
theorem accepts_exactOf (n : Nat) (root? : Option Grammar) (a b : Tree) :
    (e.level n).accepts root? b (.exactOf a)
      = if 0 < n then pure (decide (Signature.of a = Signature.of b))
        else throw (.depthExceeded e.config.maxDepth) := by
  cases n with
  | zero => rfl
  | succ n =>
      rw [if_pos n.succ_pos, ← Signature.describes_eq]
      rfl

/-- A signature describes a tree just if it is the tree's own, be it of a shape that any tree has or
not.  So the exact pattern of one tree accepts another just if their signatures are equal, which
they are if both have the same places, with the same tag and kind of literal at each. -/
theorem exact_compares_labels (s : Signature) (a b : Tree) :
    (s.describes b = true ↔ s = Signature.of b)
      ∧ e.accepts b (.exactOf a)
        = (if 0 < e.config.maxDepth then pure (decide (Signature.of a = Signature.of b))
          else throw (.depthExceeded e.config.maxDepth))
      ∧ (Signature.of a = Signature.of b ↔ ∀ place, a.label? place = b.label? place) :=
  ⟨s.describes_iff b, e.accepts_exactOf _ _ a b, Tree.signature_eq_iff⟩

end Engine

/-! ## Patterns without conditions -/

variable [LawfulMonad m]

/-- Matching, one step, looks the same at trees that are alike if the level below does. -/
theorem Level.acceptsStep_of_alike {below : Level m} {root : Grammar}
    (hroot : root.isUnconditional = true)
    (hbelow : ∀ {g a b}, g.isUnconditional = true → Tree.Alike a b →
      below.accepts (some root) a g = below.accepts (some root) b g)
    {g : Grammar} (hg : g.isUnconditional = true) {a b : Tree} (h : Tree.Alike a b) :
    Level.acceptsStep below (some root) a g = Level.acceptsStep below (some root) b g := by
  have hbeside : ∀ g' ∈ g.beside,
      below.accepts (some root) a g' = below.accepts (some root) b g' :=
    fun g' hg' => hbelow (Grammar.isUnconditional_beside hg hg') h
  have hbeneath {g' : Grammar} (hg' : g' ∈ g.beneath) {c d : Tree} (hcd : Tree.Alike c d) :
      below.accepts (some root) c g' = below.accepts (some root) d g' :=
    hbelow (Grammar.isUnconditional_beneath hg hg') hcd
  obtain ⟨-, harity, -⟩ := h.sameHead
  cases g with
  | wildcard => rfl
  | exact s => exact congrArg pure (h.describes s)
  | terminal kind? =>
      refine congrArg pure (h.any_value? fun {v w} hvw => ?_)
      rw [Literal.kind_eq_of_equal hvw]
  | literal l => exact congrArg pure (h.any_value? fun hvw => Literal.equal_congr hvw l)
  | node tag? gs =>
      have hpairs : (gs.zip a.children).allM (fun p => below.accepts (some root) p.2 p.1)
          = (gs.zip b.children).allM fun p => below.accepts (some root) p.2 p.1 := by
        refine Verdict.allM_of_forall₂ ((forall₂_zip h.children gs).imp ?_)
        rintro ⟨g', c⟩ ⟨-, d⟩ ⟨rfl, hmem, hcd⟩
        exact hbeneath hmem hcd
      rw [Level.acceptsStep, Level.acceptsStep, hpairs, h.tagAccepts, harity]
  | vararg tag? leading rest =>
      have hplaces : a.children.zipIdx.allM
            (fun p => below.accepts (some root) p.1 (Level.patternAt leading rest p.2))
          = b.children.zipIdx.allM
            fun p => below.accepts (some root) p.1 (Level.patternAt leading rest p.2) := by
        refine Verdict.allM_of_forall₂ ((forall₂_zipIdx h.children 0).imp ?_)
        rintro ⟨c, i⟩ ⟨d, -⟩ ⟨rfl, hcd⟩
        exact hbeneath (Level.patternAt_mem leading rest i) hcd
      rw [Level.acceptsStep, Level.acceptsStep, hplaces, h.tagAccepts, h.isTerminal, harity]
  | all gs => exact Verdict.allM_congr hbeside
  | any gs => exact Verdict.anyM_congr hbeside
  | except g => exact congrArg Verdict.negate (hbeside g (List.mem_singleton_self g))
  | choose c yes no => cases hg
  | switch cases =>
      exact Verdict.anyM_congr fun c hc => hbeside c.pattern (List.mem_map_of_mem hc)
  | recurse =>
      rw [Level.acceptsStep, Level.acceptsStep, Level.root, pure_bind, pure_bind]
      exact hbelow hroot h

namespace Engine

variable (e : Engine m)

/-- On no level can an unconditional pattern tell trees apart that are alike. -/
theorem accepts_of_alike {root : Grammar} (hroot : root.isUnconditional = true) (n : Nat) :
    ∀ {g a b}, g.isUnconditional = true → Tree.Alike a b →
      (e.level n).accepts (some root) a g = (e.level n).accepts (some root) b g := by
  induction n with
  | zero =>
      intro g a b _ _
      rfl
  | succ n ih =>
      intro g a b hg h
      exact Level.acceptsStep_of_alike hroot ih hg h

/-- A grammar without conditions has one verdict on trees that are alike and selects the same case,
or raises the same error, that of the depth limit included. -/
theorem likeness_unseen {g : Grammar} (hg : g.isUnconditional = true) {a b : Tree}
    (hab : a.alike b = true) : e.accepts a g = e.accepts b g ∧ e.select a g = e.select b g := by
  have halike : Tree.Alike a b := Tree.alike_iff.mp hab
  have hlevel {g' : Grammar} (hg' : g'.isUnconditional = true) :
      e.top.accepts (some g) a g' = e.top.accepts (some g) b g' :=
    e.accepts_of_alike hg _ hg' halike
  have hmatched : e.accepts a g = e.accepts b g := hlevel hg
  refine ⟨hmatched, ?_⟩
  have hother : (do if ← e.accepts a g then return some 0 else return none : m (Option Nat))
      = do if ← e.accepts b g then return some 0 else return none := by
    rw [hmatched]
  -- the patterns of cases and the alternatives are asked about the tree itself
  cases g with
  | switch cases =>
      have hfirst : e.top.firstCase (some (.switch cases)) a cases
          = e.top.firstCase (some (.switch cases)) b cases :=
        Verdict.firstFrom_congr (fun c hc =>
          hlevel (Grammar.isUnconditional_beside hg (List.mem_map_of_mem hc))) 0
      rw [select, select, hfirst]
  | any gs =>
      have hfirst : e.top.firstAlternative (some (.any gs)) a gs
          = e.top.firstAlternative (some (.any gs)) b gs :=
        Verdict.firstFrom_congr (fun g' hg' =>
          hlevel (Grammar.isUnconditional_beside hg hg')) 0
      rw [select, select, hfirst]
  | _ => exact hother

/-- Zeros of both signs in front of a string; the first child is compared and the second asked to
be no such node again. -/
theorem likeness_unseen_zeros :
    (Grammar.switch [⟨.exactOf (.leaf (.int 0)), []⟩,
        ⟨.vararg none [.literal (.float 0.0)] (.except .recurse), []⟩]).isUnconditional = true
      ∧ (Tree.node (.user "f") [.leaf (.float 0.0), .leaf (.str "a")]).alike
          (.node (.user "f") [.leaf (.float (-0.0)), .leaf (.str "a")]) = true
      ∧ (under (.constant .unit) .pattern 8).select
          (.node (.user "f") [.leaf (.float (-0.0)), .leaf (.str "a")])
          (.switch [⟨.exactOf (.leaf (.int 0)), []⟩,
            ⟨.vararg none [.literal (.float 0.0)] (.except .recurse), []⟩]) = .ok (some 1) := by
  have halike : (Tree.node (.user "f") [.leaf (.float 0.0), .leaf (.str "a")]).alike
      (.node (.user "f") [.leaf (.float (-0.0)), .leaf (.str "a")]) = true :=
    Tree.alike_iff.mpr ⟨rfl, .cons (by decide) (.cons (by decide) .nil)⟩
  refine ⟨rfl, halike, ?_⟩
  rw [← (likeness_unseen _ rfl halike).2]
  rfl

end Engine

end Engines

end TreeGrammar
