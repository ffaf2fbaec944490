import TreeGrammar.Tree

/-! # Well-formed trees

    `Tree.make` checks the shape of one node.  So what it builds from well-formed
    children is well-formed, and nothing else is. -/

namespace TreeGrammar.Tree

theorem wellFormed_leaf (l : Literal) : (leaf l).WellFormed :=
  rfl

/-- A list of trees is tested tree by tree. -/
theorem areWellFormed_iff {cs : List Tree} :
    areWellFormed cs = true ↔ ∀ c ∈ cs, c.WellFormed := by
  induction cs with
  | nil => simp [areWellFormed]
  | cons c cs ih => simp [areWellFormed, ih, WellFormed]

/-- A node is well-formed if its tag admits so many children, and the children are. -/
theorem wellFormed_node_iff {tag : Tag} {cs : List Tree} :
    (node tag cs).WellFormed ↔ shapeFault? tag cs.length = none ∧ ∀ c ∈ cs, c.WellFormed := by
  rw [← areWellFormed_iff, WellFormed, isWellFormed, Bool.and_eq_true, Option.isNone_iff_eq_none]

/-- The children of a well-formed tree are well-formed. -/
theorem WellFormed.of_mem_children {t c : Tree} (ht : t.WellFormed) (hc : c ∈ t.children) :
    c.WellFormed := by
  cases t with
  | leaf l => cases hc
  | node tag cs => exact (wellFormed_node_iff.mp ht).2 c hc

/-- Under an operator with a fixed arity a well-formed node has so many children. -/
theorem WellFormed.length_eq {op : Op} {cs : List Tree} {n : Nat}
    (ht : (node (.builtin op) cs).WellFormed) (hop : op.arity? = some n) : cs.length = n := by
  have hshape : shapeFault? (.builtin op) cs.length = none := (wellFormed_node_iff.mp ht).1
  have harity : (Tag.builtin op).arity? = some n := hop
  rw [shapeFault?, harity] at hshape
  grind

/-- A node is built exactly if its tag admits so many children. -/
theorem make_eq_ok_iff {tag : Tag} {cs : List Tree} {t : Tree} :
    make tag cs = .ok t ↔ shapeFault? tag cs.length = none ∧ t = node tag cs := by
  rw [make]
  constructor
  · intro h
    split at h
    · next hshape =>
        cases h
        exact ⟨hshape, rfl⟩
    · cases h
  · rintro ⟨hshape, rfl⟩
    rw [hshape]

/-- Taking a well-formed node apart and building it anew gives it back. -/
theorem WellFormed.make_eq {t : Tree} (ht : t.WellFormed) (hnode : t.isTerminal = false) :
    make t.tag t.children = .ok t := by
  cases t with
  | leaf v => cases hnode
  | node tag cs => exact make_eq_ok_iff.mpr ⟨(wellFormed_node_iff.mp ht).1, rfl⟩

/-- A node that is built from well-formed trees is well-formed. -/
theorem wellFormed_of_make {tag : Tag} {cs : List Tree} {t : Tree} (h : make tag cs = .ok t)
    (hcs : ∀ c ∈ cs, c.WellFormed) : t.WellFormed := by
  obtain ⟨hshape, rfl⟩ := make_eq_ok_iff.mp h
  exact wellFormed_node_iff.mpr ⟨hshape, hcs⟩

end TreeGrammar.Tree
