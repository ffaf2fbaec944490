import TreeGrammar.Proofs.Engine.DepthLimit
import TreeGrammar.Proofs.Grammar.Reading
import TreeGrammar.Proofs.Tree.WellFormed
import TreeGrammar.Proofs.Verdict

/-! # Copying — a tree built anew is the same tree

    Building a tree anew makes a step for every node on the way down and none for a
    leaf, so it takes one step less than the tree has levels.  A well-formed node is
    never refused, whatever stands in it, and nothing but the limit can stop the copy. -/

namespace TreeGrammar

open Outcome (exceeded)

namespace Tree

/-- A tree is one deeper than its deepest child. -/
theorem depth_le_succ_iff {t : Tree} {n : Nat} :
    t.depth ≤ n + 1 ↔ ∀ c ∈ t.children, c.depth ≤ n := by
  constructor
  · intro h c hc
    have hlt := depth_lt_of_mem_children hc
    omega
  · intro h
    cases t with
    | leaf v => exact Nat.le_add_left 1 n
    | node tag cs =>
        have hdepths : depths cs ≤ n := depths_le_of h
        show 1 + depths cs ≤ n + 1
        omega

theorem depth_of_isTerminal {t : Tree} (h : t.isTerminal = true) : t.depth ≤ 1 := by
  have hempty : t.children = [] := List.length_eq_zero_iff.mp (beq_iff_eq.mp h)
  rw [depth_le_succ_iff, hempty]
  exact nofun

/-- A node is at least two deep. -/
theorem one_lt_depth {t : Tree} (h : t.isTerminal = false) : 1 < t.depth := by
  have hchildren : t.children ≠ [] := fun hempty => by
    rw [isTerminal, arity, hempty] at h
    cases h
  obtain ⟨c, hc⟩ := List.exists_mem_of_ne_nil _ hchildren
  exact Nat.lt_of_le_of_lt c.depth_pos (depth_lt_of_mem_children hc)

end Tree

namespace Engine

variable (e : Engine Outcome)

/-- Copying a well-formed tree gives it back if there is a step for each level of it but the first,
and is cut short otherwise. -/
theorem copy_eq (n : Nat) {t : Tree} (ht : t.WellFormed) :
    Level.copy (e.level n) t
      = if t.depth ≤ n + 1 then .ok t else exceeded e.config.maxDepth := by
  induction n generalizing t with
  | zero =>
      rw [Level.copy]
      cases hterminal : t.isTerminal with
      | true =>
          rw [if_pos rfl, if_pos (Tree.depth_of_isTerminal hterminal)]
          rfl
      | false =>
          rw [if_neg Bool.false_ne_true, if_neg (Nat.not_le.mpr (Tree.one_lt_depth hterminal))]
          rfl
  | succ n ih =>
      rw [Level.copy]
      cases hterminal : t.isTerminal with
      | true =>
          have hone : t.depth ≤ 1 := Tree.depth_of_isTerminal hterminal
          rw [if_pos rfl, if_pos (by omega)]
          rfl
      | false =>
          have hchildren : t.children.mapM (Level.copy (e.level n))
              = if ∀ c ∈ t.children, c.depth ≤ n + 1 then .ok (t.children.map id)
                else exceeded e.config.maxDepth :=
            Verdict.mapM_eq_ite fun c hc => ih (ht.of_mem_children hc)
          rw [if_neg Bool.false_ne_true]
          show (do Outcome.lift (Tree.make t.tag (← t.children.mapM (Level.copy (e.level n))))) = _
          rw [hchildren]
          by_cases hdepth : t.depth ≤ n + 1 + 1
          · rw [if_pos (Tree.depth_le_succ_iff.mp hdepth), if_pos hdepth, List.map_id]
            show Outcome.lift (Tree.make t.tag t.children) = _
            rw [Outcome.lift_eq, ht.make_eq hterminal]
          · rw [if_neg (mt Tree.depth_le_succ_iff.mpr hdepth), if_neg hdepth]
            rfl

/-- Building a well-formed tree anew gives it back, if there is a step for each level of the tree
but the first. -/
theorem copy_eq_self (n : Nat) {t : Tree} (ht : t.WellFormed) (hdepth : t.depth ≤ n + 1) :
    Level.copy (e.level n) t = .ok t := by
  rw [copy_eq e n ht, if_pos hdepth]

/-- The copy as an action takes one step more. -/
theorem level_passThrough (n : Nat) {t : Tree} (ht : t.WellFormed) (state data : Value) :
    (e.level n).apply ⟨none, t, state, data⟩ .passThrough
      = if t.depth ≤ n then .ok (.node t) else exceeded e.config.maxDepth := by
  cases n with
  | zero =>
      rw [if_neg (Nat.not_le.mpr t.depth_pos)]
      rfl
  | succ n =>
      show (do return Value.node (← Level.copy (e.level n) t)) = _
      rw [copy_eq e n ht]
      split <;> rfl

/-- Copying a tree takes as many steps as the tree is deep. -/
theorem apply_passThrough {t : Tree} (ht : t.WellFormed) (state data : Value) :
    e.apply t state data .passThrough
      = if t.depth ≤ e.config.maxDepth then .ok (.node t) else exceeded e.config.maxDepth :=
  level_passThrough e e.config.maxDepth ht state data

/-- The copy of a well-formed tree as an action is the tree itself if the limit is no smaller than
its depth, and then a copy of the copy is the same; under a smaller limit there is no other answer
than the error of that limit. -/
theorem passThrough_identity {t : Tree} (ht : t.WellFormed) (state data : Value) :
    ((∃ v, e.apply t state data .passThrough = .ok v) ↔ t.depth ≤ e.config.maxDepth)
      ∧ (∀ v, e.apply t state data .passThrough = .ok v → v = .node t
          ∧ ∃ t', v.toTree = .ok t'
            ∧ ∀ state' data', e.apply t' state' data' .passThrough = .ok v)
      ∧ (e.config.maxDepth < t.depth →
          e.apply t state data .passThrough = exceeded e.config.maxDepth) := by
  by_cases hdepth : t.depth ≤ e.config.maxDepth
  · have hcopy (state data : Value) : e.apply t state data .passThrough = .ok (.node t) := by
      rw [apply_passThrough e ht, if_pos hdepth]
    refine ⟨iff_of_true ⟨_, hcopy state data⟩ hdepth, ?_, fun h => absurd hdepth (Nat.not_le.mpr h)⟩
    intro v hv
    obtain rfl : .node t = v := Except.ok.inj ((hcopy state data).symm.trans hv)
    exact ⟨rfl, t, rfl, hcopy⟩
  · have hcut : e.apply t state data .passThrough = exceeded e.config.maxDepth := by
      rw [apply_passThrough e ht, if_neg hdepth]
    have hnone (v : Value) : e.apply t state data .passThrough ≠ .ok v := by
      rw [hcut]
      exact nofun
    exact ⟨iff_of_false (fun ⟨v, hv⟩ => hnone v hv) hdepth, fun v hv => absurd hv (hnone v),
      fun _ => hcut⟩

/-- Three steps give back a tree of three levels that holds a NaN, also from its copy; two do not. -/
theorem passThrough_identity_nan :
    (∃ v, (under (.constant .unit) .pattern 3).apply
          (.node (.user "f") [.leaf (.int 1), .node (.builtin .negate) [.leaf (.float (0 / 0))]])
          .unit .unit .passThrough = .ok v
        ∧ v = .node
          (.node (.user "f") [.leaf (.int 1), .node (.builtin .negate) [.leaf (.float (0 / 0))]]))
      ∧ (under (.constant .unit) .passThrough 2).apply
          (.node (.user "f") [.leaf (.int 1), .node (.builtin .negate) [.leaf (.float (0 / 0))]])
          .unit .unit .passThrough = exceeded 2 := by
  constructor
  · obtain ⟨hvalue, hsame, -⟩ := passThrough_identity (under (.constant .unit) .pattern 3)
      (t := .node (.user "f") [.leaf (.int 1), .node (.builtin .negate) [.leaf (.float (0 / 0))]])
      rfl .unit .unit
    obtain ⟨v, hv⟩ := hvalue.mpr (Nat.le_refl 3)
    exact ⟨v, hv, (hsame v hv).1⟩
  · refine (passThrough_identity (under (.constant .unit) .passThrough 2) ?_ .unit .unit).2.2 ?_
    · rfl
    · exact Nat.lt_add_one 2

end Engine

end TreeGrammar
