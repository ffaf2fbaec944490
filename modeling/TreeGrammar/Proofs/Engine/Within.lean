import TreeGrammar.Proofs.Engine.DepthLimit

/-! # Grammars to recurse into — one for each of two runs

    Two grammars are often compared each as what `recurse` means inside of it, so that the
    two runs differ wherever they come back to it.  `Level.within` fixes this grammar, and
    `Level.RelatedWithin` relates two levels with a grammar of its own for each.  One step
    of the two grammars themselves is all there is to compare: if it is related wherever
    the levels below are, so are the levels, whatever is asked of them. -/

namespace TreeGrammar

open Outcome (CutAt congruence_cutAt)

namespace Level

/-- The level with this grammar as what `recurse` means. -/
def within (l : Level Outcome) (root : Grammar) : Level Outcome where
  accepts _ t g := l.accepts (some root) t g
  apply s a := l.apply { s with root? := some root } a
  transform s g := l.transform { s with root? := some root } g
  rebuild t := l.rebuild t
  evaluate s inner? := l.evaluate { s with root? := some root } inner?

/-- The levels are related with any one grammar to recurse into, with one for each, and when these
two are matched or run themselves. -/
structure RelatedWithin (R : ∀ {α : Type}, Outcome α → Outcome α → Prop) (lo hi : Level Outcome)
    (g g' : Grammar) : Prop where
  same : Level.Related R lo hi
  within : Level.Related R (lo.within g) (hi.within g')
  accepts : ∀ t, R ((lo.within g).accepts none t g) ((hi.within g').accepts none t g')
  transform : ∀ s, R ((lo.within g).transform s g) ((hi.within g').transform s g')

section Steps

variable {R : ∀ {α : Type}, Outcome α → Outcome α → Prop} (hR : Congruence R)
variable {lo hi : Level Outcome} {lib : Library Outcome} (hlib : lib.Related R)

include hR hlib

/-- One step: only `recurse` leads to the two grammars, and `algorithm` out of them. -/
theorem RelatedWithin.above {g g' : Grammar} (h : RelatedWithin R lo hi g g')
    (whenDefault : WhenDefault) :
    Level.Related R ((Level.above lib whenDefault fun _ => lo).within g)
      ((Level.above lib whenDefault fun _ => hi).within g') := by
  have hstep := h.within.above hR hlib whenDefault
  refine ⟨fun root? t part => ?_, fun s a => ?_, fun s part => ?_, hstep.rebuild, hstep.evaluate⟩
  · have hpart := hstep.accepts root? t part
    cases part with
    | recurse => exact h.accepts t
    | _ => exact hpart
  · have haction := hstep.apply s a
    cases a with
    | recurse => exact h.transform s
    | algorithm inner => exact h.same.transform { s with root? := some inner } inner
    | arg which => cases which <;> exact haction
    | _ => exact haction
  · have hpart := hstep.transform s part
    cases part with
    | recurse => exact h.transform s
    | _ => exact hpart

end Steps

end Level

namespace Engine

variable (e : Engine Outcome) {g g' : Grammar}

/-- If one step of each grammar gives the same, or is cut short in the first, wherever this is so of
no more steps of the first, then it is so at all depths. -/
theorem relatedWithin_level
    (hstep : ∀ {n n'}, (∀ k ≤ n,
        Level.RelatedWithin (CutAt e.config.maxDepth) (e.level k) (e.level n') g g') →
      (∀ t, CutAt e.config.maxDepth (Level.acceptsStep (e.level n) (some g) t g)
          (Level.acceptsStep (e.level n') (some g') t g'))
        ∧ ∀ s : Site, CutAt e.config.maxDepth
          (Level.transformStep (e.level n) e.library { s with root? := some g } g)
          (Level.transformStep (e.level n') e.library { s with root? := some g' } g'))
    {n n' : Nat} (hn : n ≤ n') :
    Level.RelatedWithin (CutAt e.config.maxDepth) (e.level n) (e.level n') g g' := by
  induction n using Nat.strong_induction_on generalizing n' with
  | _ n ih =>
      match n, n', hn with
      | 0, _, hn =>
          exact ⟨related_cutAt hn, ⟨fun _ _ _ => .inl rfl, fun _ _ => .inl rfl,
            fun _ _ => .inl rfl, fun _ => .inl rfl, fun _ _ => .inl rfl⟩,
            fun _ => .inl rfl, fun _ => .inl rfl⟩
      | n + 1, n' + 1, hn =>
          have hle : n ≤ n' := Nat.le_of_succ_le_succ hn
          have hbelow : ∀ k ≤ n,
              Level.RelatedWithin (CutAt e.config.maxDepth) (e.level k) (e.level n') g g' :=
            fun k hk => ih k (Nat.lt_succ_of_le hk) (Nat.le_trans hk hle)
          obtain ⟨haccepts, htransform⟩ := hstep hbelow
          have hwithin := (hbelow n (Nat.le_refl n)).above (congruence_cutAt e.config.maxDepth)
            (e.library.related_cutAt _) e.config.whenDefault
          exact ⟨related_cutAt hn, hwithin, haccepts, htransform⟩

end Engine

end TreeGrammar
