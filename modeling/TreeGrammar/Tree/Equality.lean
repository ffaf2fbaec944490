import TreeGrammar.Tree

/-! # Equality of trees

    Two trees are alike when they have the same shape, the same tags and equal
    literals in the same places.  The comparison keeps a stack of pairs still to be
    compared, so that it needs no recursion into the trees. -/

namespace TreeGrammar.Tree

/-- Whether two values, or their absence, are equal. -/
def sameValue : Option Literal → Option Literal → Bool
  | some a, some b => a.equal b
  | none, none => true
  | _, _ => false

/-- Whether two trees have equal tags, arities and values, whatever their children. -/
def sameHead (a b : Tree) : Bool :=
  a.tag == b.tag && a.arity == b.arity && sameValue a.value? b.value?

/-- What is put on the stack after a pair: the pairs of children, the last of them on top. -/
def childPairs (a b : Tree) : List (Tree × Tree) :=
  (a.children.zip b.children).reverse

theorem sizes_append (xs ys : List Tree) : sizes (xs ++ ys) = sizes xs + sizes ys := by
  induction xs with
  | nil => simp [sizes]
  | cons x xs ih => simp only [List.cons_append, sizes, ih]; omega

theorem sizes_reverse (xs : List Tree) : sizes xs.reverse = sizes xs := by
  induction xs with
  | nil => rfl
  | cons x xs ih => simp only [List.reverse_cons, sizes_append, sizes, ih]; omega

/-- A tree has one place more than all its children. -/
theorem size_eq (t : Tree) : t.size = 1 + sizes t.children := by
  cases t <;> simp [size, children, sizes]

/-- Pairing off two lists takes no more than all places of the first. -/
theorem sizes_zip_le (xs ys : List Tree) : sizes ((xs.zip ys).map Prod.fst) ≤ sizes xs := by
  induction xs generalizing ys with
  | nil => simp [sizes]
  | cons x xs ih =>
    cases ys with
    | nil => simp [sizes]
    | cons y ys =>
      have := ih ys
      simp only [List.zip_cons_cons, List.map_cons, sizes]
      omega

/-- The pairs of children are together smaller than the pair that they take the place of. -/
theorem sizes_childPairs_lt (a b : Tree) (rest : List (Tree × Tree)) :
    sizes ((childPairs a b ++ rest).map Prod.fst) < sizes (((a, b) :: rest).map Prod.fst) := by
  have := sizes_zip_le a.children b.children
  simp only [childPairs, List.map_append, List.map_reverse, sizes_append, sizes_reverse,
    List.map_cons, sizes, size_eq a]
  omega

/-- Whether the trees of every pair on the stack are alike. -/
def allAlike : List (Tree × Tree) → Bool
  | [] => true
  | (a, b) :: rest => sameHead a b && allAlike (childPairs a b ++ rest)
termination_by pairs => sizes (pairs.map Prod.fst)
decreasing_by exact sizes_childPairs_lt a b rest

/-- Whether two trees are alike. -/
def alike (a b : Tree) : Bool :=
  allAlike [(a, b)]

end TreeGrammar.Tree
