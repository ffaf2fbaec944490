import TreeGrammar.Proofs.Grammar.Reading
import TreeGrammar.Proofs.Signature

/-! # Places in a tree — what a signature keeps

    A place is the way from the top of a tree down to one of its subtrees, each step the
    index of a child.  The signature of a tree keeps, of the subtree at every place, the
    tag and the kind of the literal, and nothing else: two trees have one signature just
    if they have the same places with the same labels. -/

namespace TreeGrammar

namespace Tree

/-- The subtree at a place, if the tree has the place. -/
def subtree? (t : Tree) : List Nat → Option Tree
  | [] => some t
  | i :: place => (t.child? i).bind fun c => c.subtree? place

/-- What stands at the top of a tree: its tag, and the kind of the literal if it holds one. -/
def label (t : Tree) : Tag × Option Kind :=
  (t.tag, t.value?.map Literal.kind)

/-- The labels at all places of a tree. -/
def label? (t : Tree) (place : List Nat) : Option (Tag × Option Kind) :=
  (t.subtree? place).map label

end Tree

namespace Signature

theorem ofAll_eq_map (ts : List Tree) : ofAll ts = ts.map of := by
  induction ts with
  | nil => rfl
  | cons t ts ih => rw [ofAll, ih, List.map_cons]

/-- A signature is the label of a tree and the signatures of its children. -/
theorem of_eq (t : Tree) : of t = .mk t.label.1 t.label.2 (t.children.map of) := by
  cases t with
  | leaf v => rfl
  | node tag cs =>
      rw [of, ofAll_eq_map]
      rfl

/-- Two trees have the same signature if the labels agree and the children's signatures do. -/
theorem of_eq_of_iff {a b : Tree} :
    of a = of b ↔ a.label = b.label ∧ a.children.map of = b.children.map of := by
  rw [of_eq a, of_eq b, mk.injEq, Prod.ext_iff, and_assoc]

end Signature

namespace Tree

open Signature (of of_eq_of_iff)

/-- Where the children of one tree have the signatures that those of another have, there is a child
of an index in both or in neither. -/
theorem child?_cases {a b : Tree} (h : a.children.map of = b.children.map of) (i : Nat) :
    (a.child? i = none ∧ b.child? i = none)
      ∨ ∃ c d, a.child? i = some c ∧ b.child? i = some d ∧ of c = of d := by
  have hi : (a.child? i).map of = (b.child? i).map of := by
    rw [child?, child?, ← List.getElem?_map, ← List.getElem?_map, h]
  cases ha : a.child? i with
  | none =>
      rw [ha] at hi
      exact Or.inl ⟨rfl, Option.map_eq_none_iff.mp hi.symm⟩
  | some c =>
      rw [ha] at hi
      obtain ⟨d, hd, hsame⟩ := Option.map_eq_some_iff.mp hi.symm
      exact Or.inr ⟨c, d, rfl, hd, hsame.symm⟩

/-- Trees of one signature have the same label at every place. -/
theorem label?_eq_of_signature {a b : Tree} (h : of a = of b) (place : List Nat) :
    a.label? place = b.label? place := by
  induction place generalizing a b with
  | nil => exact congrArg some (of_eq_of_iff.mp h).1
  | cons i place ih =>
      rw [label?, label?, subtree?, subtree?]
      rcases child?_cases (of_eq_of_iff.mp h).2 i with ⟨ha, hb⟩ | ⟨c, d, hc, hd, hsame⟩
      · rw [ha, hb]
      · rw [hc, hd]
        exact ih hsame

/-- The labels at all places tell the signature. -/
theorem signature_eq_of_label? (a : Tree) :
    ∀ b : Tree, (∀ place, a.label? place = b.label? place) → of a = of b := by
  induction a using induction_on_children with
  | step a ih =>
      intro b h
      refine of_eq_of_iff.mpr ⟨Option.some_inj.mp (h []), List.ext_getElem? fun i => ?_⟩
      have hplaces (place : List Nat) : (a.child? i).bind (·.label? place)
          = (b.child? i).bind (·.label? place) := by
        have hplace := h (i :: place)
        rwa [label?, label?, subtree?, subtree?, Option.map_bind, Option.map_bind] at hplace
      -- the place of the child itself tells whether there is one
      have htop : (a.child? i).map label = (b.child? i).map label := by
        rw [Option.map_eq_bind, Option.map_eq_bind]
        exact hplaces []
      rw [List.getElem?_map, List.getElem?_map]
      show (a.child? i).map of = (b.child? i).map of
      cases ha : a.child? i with
      | none =>
          rw [ha] at htop
          rw [Option.map_eq_none_iff.mp htop.symm]
      | some c =>
          rw [ha] at htop hplaces
          obtain ⟨d, hd, -⟩ := Option.map_eq_some_iff.mp htop.symm
          rw [hd] at hplaces ⊢
          exact congrArg some (ih c (List.mem_of_getElem? ha) d hplaces)

/-- Two trees have one signature just if they have the same places with the same labels. -/
theorem signature_eq_iff {a b : Tree} :
    of a = of b ↔ ∀ place, a.label? place = b.label? place :=
  ⟨label?_eq_of_signature, signature_eq_of_label? a b⟩

end Tree

end TreeGrammar
