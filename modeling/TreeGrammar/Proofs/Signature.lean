import TreeGrammar.Signature

/-! # Describing a tree — the comparison with a signature, without building the tree's own -/

namespace TreeGrammar.Signature

mutual
/-- A signature describes the trees that have it. -/
theorem describes_iff (s : Signature) (t : Tree) : s.describes t = true ↔ s = of t := by
  match s, t with
  | .mk tag kind cs, .leaf v =>
      show ((tag == .builtin .terminal && kind == some v.kind && cs.length == 0
        && describesAll cs []) = true)
          ↔ Signature.mk tag kind cs = .mk (.builtin .terminal) (some v.kind) []
      cases cs with
      | nil => simp [describesAll]
      | cons c cs => simp
  | .mk tag kind cs, .node tag' cs' =>
      show ((tag == tag' && kind == none && cs.length == cs'.length
        && describesAll cs cs') = true)
          ↔ Signature.mk tag kind cs = .mk tag' none (ofAll cs')
      rw [Signature.mk.injEq, ← describesAll_iff cs cs']
      simp only [Bool.and_eq_true, beq_iff_eq, and_assoc]
/-- Signatures describe as many trees if these have them. -/
theorem describesAll_iff (ss : List Signature) (ts : List Tree) :
    (ss.length = ts.length ∧ describesAll ss ts = true) ↔ ss = ofAll ts := by
  match ss, ts with
  | [], [] => simp [describesAll, ofAll]
  | [], _ :: _ => simp [ofAll]
  | _ :: _, [] => simp [ofAll]
  | s :: ss, t :: ts =>
      rw [ofAll, List.cons.injEq, ← describes_iff s t, ← describesAll_iff ss ts, describesAll,
        Bool.and_eq_true]
      constructor
      · rintro ⟨hlength, hs, hss⟩
        exact ⟨hs, Nat.succ.inj hlength, hss⟩
      · rintro ⟨hs, hlength, hss⟩
        exact ⟨congrArg Nat.succ hlength, hs, hss⟩
end

/-- A signature describes exactly the trees whose own it is. -/
theorem describes_eq (s : Signature) (t : Tree) : s.describes t = decide (s = of t) :=
  Bool.eq_iff_iff.mpr ((describes_iff s t).trans decide_eq_true_iff.symm)

end TreeGrammar.Signature
