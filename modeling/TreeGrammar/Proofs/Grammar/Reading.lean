import TreeGrammar.Grammar

/-! # Reading a grammar — what it says of a tree, without an engine

    A pattern is read as a test of trees, by recursion on the pattern; what `recurse`
    says is a parameter.  If every `recurse` lies below a child, what it says of a tree
    only matters for smaller ones, so a grammar that refers to itself has one reading.

    The parts of a pattern are met by the tree itself (`Grammar.beside`) or by its
    children (`Grammar.beneath`). -/

namespace TreeGrammar

namespace Tree

/-- Every tree is at least one deep. -/
theorem depth_pos (t : Tree) : 0 < t.depth := by
  cases t with
  | leaf v => exact Nat.one_pos
  | node tag cs =>
      show 0 < 1 + depths cs
      exact Nat.add_pos_left Nat.one_pos _

/-- A tree is no deeper than the list it is in. -/
theorem depth_le_depths {c : Tree} {cs : List Tree} (h : c ∈ cs) : c.depth ≤ depths cs := by
  induction h with
  | head cs => exact Nat.le_max_left _ _
  | tail c' _ ih => exact Nat.le_trans ih (Nat.le_max_right _ _)

/-- A list is no deeper than a bound on all its trees. -/
theorem depths_le_of {cs : List Tree} {n : Nat} (h : ∀ c ∈ cs, c.depth ≤ n) : depths cs ≤ n := by
  induction cs with
  | nil => exact Nat.zero_le n
  | cons c cs ih =>
      obtain ⟨hc, hcs⟩ := List.forall_mem_cons.mp h
      exact Nat.max_le.mpr ⟨hc, ih hcs⟩

/-- A child is less deep than its node. -/
theorem depth_lt_of_mem_children {c t : Tree} (h : c ∈ t.children) : c.depth < t.depth := by
  cases t with
  | leaf v => cases h
  | node tag cs =>
      show c.depth < 1 + depths cs
      have : c.depth ≤ depths cs := depth_le_depths h
      omega

/-- A tree with children is a node. -/
theorem eq_node_of_children {t c : Tree} {cs : List Tree} (h : t.children = c :: cs) :
    t = .node t.tag (c :: cs) := by
  cases t with
  | leaf v => cases h
  | node tag children => exact congrArg (node tag) h

/-- What holds of a tree if it holds of its children holds of every tree. -/
theorem induction_on_children {P : Tree → Prop} (step : ∀ t, (∀ c ∈ t.children, P c) → P t)
    (t : Tree) : P t := by
  have hbound (n : Nat) : ∀ t : Tree, t.depth ≤ n → P t := by
    induction n with
    | zero =>
        intro t ht
        exact absurd t.depth_pos (Nat.not_lt.mpr ht)
    | succ n ih =>
        intro t ht
        refine step t fun c hc => ih c ?_
        exact Nat.le_of_lt_succ (Nat.lt_of_lt_of_le (depth_lt_of_mem_children hc) ht)
  exact hbound t.depth t (Nat.le_refl _)

end Tree

namespace Grammar

/-- The parts that are asked about the tree itself. -/
def beside : Grammar → List Grammar
  | .all gs => gs
  | .any gs => gs
  | .except g => [g]
  | .choose _ yes no => [yes, no]
  | .switch cases => cases.map Case.pattern
  | _ => []

/-- The parts that are asked about children of the tree. -/
def beneath : Grammar → List Grammar
  | .node _ gs => gs
  | .vararg _ leading rest => rest :: leading
  | _ => []

mutual
/-- The number of constructors on the longest way down; bodies and conditions are not patterns. -/
def height : Grammar → Nat
  | .wildcard => 1
  | .exact _ => 1
  | .terminal _ => 1
  | .literal _ => 1
  | .node _ gs => 1 + heights gs
  | .vararg _ leading rest => 1 + max (height rest) (heights leading)
  | .all gs => 1 + heights gs
  | .any gs => 1 + heights gs
  | .except g => 1 + height g
  | .choose _ yes no => 1 + max (height yes) (height no)
  | .switch cases => 1 + caseHeights cases
  | .recurse => 1
/-- The greatest height in a list of patterns. -/
def heights : List Grammar → Nat
  | [] => 0
  | g :: gs => max (height g) (heights gs)
/-- The greatest height of the patterns in a list of cases. -/
def caseHeights : List Case → Nat
  | [] => 0
  | ⟨g, _⟩ :: cs => max (height g) (caseHeights cs)
end

mutual
/-- No part of the pattern depends on a condition. -/
def isUnconditional : Grammar → Bool
  | .wildcard => true
  | .exact _ => true
  | .terminal _ => true
  | .literal _ => true
  | .node _ gs => areUnconditional gs
  | .vararg _ leading rest => isUnconditional rest && areUnconditional leading
  | .all gs => areUnconditional gs
  | .any gs => areUnconditional gs
  | .except g => isUnconditional g
  | .choose _ _ _ => false
  | .switch cases => casesUnconditional cases
  | .recurse => true
/-- No pattern of a list depends on a condition. -/
def areUnconditional : List Grammar → Bool
  | [] => true
  | g :: gs => isUnconditional g && areUnconditional gs
/-- No pattern in a list of cases depends on a condition. -/
def casesUnconditional : List Case → Bool
  | [] => true
  | ⟨g, _⟩ :: cs => isUnconditional g && casesUnconditional cs
end

mutual
/-- Every `recurse` in the pattern is asked about a child. -/
def isGuarded : Grammar → Bool
  | .wildcard => true
  | .exact _ => true
  | .terminal _ => true
  | .literal _ => true
  | .node _ _ => true
  | .vararg _ _ _ => true
  | .all gs => areGuarded gs
  | .any gs => areGuarded gs
  | .except g => isGuarded g
  | .choose _ yes no => isGuarded yes && isGuarded no
  | .switch cases => casesGuarded cases
  | .recurse => false
/-- Every `recurse` in the patterns of a list is asked about a child. -/
def areGuarded : List Grammar → Bool
  | [] => true
  | g :: gs => isGuarded g && areGuarded gs
/-- Every `recurse` in the patterns of a list of cases is asked about a child. -/
def casesGuarded : List Case → Bool
  | [] => true
  | ⟨g, _⟩ :: cs => isGuarded g && casesGuarded cs
end

mutual
/-- Whether a pattern and all its parts pass a test; bodies and conditions are no parts. -/
def everyPart (test : Grammar → Bool) : Grammar → Bool
  | .wildcard => test .wildcard
  | .exact s => test (.exact s)
  | .terminal kind? => test (.terminal kind?)
  | .literal l => test (.literal l)
  | .node tag? gs => test (.node tag? gs) && everyPartOf test gs
  | .vararg tag? leading rest =>
    test (.vararg tag? leading rest) && (everyPart test rest && everyPartOf test leading)
  | .all gs => test (.all gs) && everyPartOf test gs
  | .any gs => test (.any gs) && everyPartOf test gs
  | .except g => test (.except g) && everyPart test g
  | .choose c yes no => test (.choose c yes no) && (everyPart test yes && everyPart test no)
  | .switch cases => test (.switch cases) && everyPartOfCases test cases
  | .recurse => test .recurse
/-- Whether all patterns of a list pass a test with all their parts. -/
def everyPartOf (test : Grammar → Bool) : List Grammar → Bool
  | [] => true
  | g :: gs => everyPart test g && everyPartOf test gs
/-- Whether all patterns in a list of cases pass a test with all their parts. -/
def everyPartOfCases (test : Grammar → Bool) : List Case → Bool
  | [] => true
  | ⟨g, _⟩ :: cs => everyPart test g && everyPartOfCases test cs
end

/-! ## Parts -/

/-- Every grammar is at least one high. -/
theorem height_pos (g : Grammar) : 0 < g.height := by
  cases g <;> unfold height <;> omega

/-- A grammar is no higher than the list it is in. -/
theorem heights_le {g : Grammar} {gs : List Grammar} (h : g ∈ gs) : g.height ≤ heights gs := by
  induction h with
  | head gs => exact Nat.le_max_left _ _
  | tail g' _ ih => exact Nat.le_trans ih (Nat.le_max_right _ _)

/-- A list is no higher than a bound on all its grammars. -/
theorem heights_le_of {gs : List Grammar} {n : Nat} (h : ∀ g ∈ gs, g.height ≤ n) :
    heights gs ≤ n := by
  induction gs with
  | nil => exact Nat.zero_le n
  | cons g gs ih =>
      obtain ⟨hg, hgs⟩ := List.forall_mem_cons.mp h
      exact Nat.max_le.mpr ⟨hg, ih hgs⟩

/-- The cases of a switch are as high as their patterns. -/
theorem caseHeights_eq (cases : List Case) :
    caseHeights cases = heights (cases.map Case.pattern) := by
  induction cases with
  | nil => rfl
  | cons c cases ih =>
      obtain ⟨g, body⟩ := c
      exact congrArg (max g.height) ih

/-- What is asked about the same tree is lower. -/
theorem height_beside {g g' : Grammar} (h : g' ∈ g.beside) : g'.height < g.height := by
  cases g with
  | all gs =>
      have : g'.height ≤ heights gs := heights_le h
      show g'.height < 1 + heights gs
      omega
  | any gs =>
      have : g'.height ≤ heights gs := heights_le h
      show g'.height < 1 + heights gs
      omega
  | except g =>
      have := List.mem_singleton.mp h
      subst this
      show g'.height < 1 + g'.height
      omega
  | choose c yes no =>
      have : g' = yes ∨ g' = no := by simpa [beside] using h
      show g'.height < 1 + max yes.height no.height
      rcases this with rfl | rfl <;> omega
  | switch cases =>
      have : g'.height ≤ heights (cases.map Case.pattern) := heights_le h
      show g'.height < 1 + caseHeights cases
      rw [caseHeights_eq]
      omega
  | _ => cases h

/-- What is asked about the children is lower. -/
theorem height_beneath {g g' : Grammar} (h : g' ∈ g.beneath) : g'.height < g.height := by
  cases g with
  | node tag? gs =>
      have : g'.height ≤ heights gs := heights_le h
      show g'.height < 1 + heights gs
      omega
  | vararg tag? leading rest =>
      show g'.height < 1 + max rest.height (heights leading)
      rcases List.mem_cons.mp h with rfl | hleading
      · omega
      · have := heights_le hleading
        omega
  | _ => cases h

/-- What holds of a pattern if it holds of its parts holds of every pattern. -/
theorem induction_on_parts {P : Grammar → Prop}
    (step : ∀ g, (∀ g' ∈ g.beside, P g') → (∀ g' ∈ g.beneath, P g') → P g) (g : Grammar) : P g := by
  -- parts stand in lists, which the recursor of patterns does not look into
  have hbound (n : Nat) : ∀ g : Grammar, g.height ≤ n → P g := by
    induction n with
    | zero =>
        intro g hg
        exact absurd (height_pos g) (Nat.not_lt.mpr hg)
    | succ n ih =>
        intro g hg
        refine step g (fun g' h => ih g' ?_) (fun g' h => ih g' ?_)
        · exact Nat.le_of_lt_succ (Nat.lt_of_lt_of_le (height_beside h) hg)
        · exact Nat.le_of_lt_succ (Nat.lt_of_lt_of_le (height_beneath h) hg)
  exact hbound g.height g (Nat.le_refl _)

/-- A test of every part of a list is one of every part of its grammars. -/
theorem everyPartOf_eq (test : Grammar → Bool) (gs : List Grammar) :
    everyPartOf test gs = gs.all (everyPart test) := by
  induction gs with
  | nil => rfl
  | cons g gs ih => exact congrArg (everyPart test g && ·) ih

theorem everyPartOfCases_eq (test : Grammar → Bool) (cases : List Case) :
    everyPartOfCases test cases = (cases.map Case.pattern).all (everyPart test) := by
  induction cases with
  | nil => rfl
  | cons c cases ih =>
      obtain ⟨g, body⟩ := c
      exact congrArg (everyPart test g && ·) ih

/-- The parts are those that the tree meets and those that its children meet. -/
theorem everyPart_iff {test : Grammar → Bool} {g : Grammar} :
    everyPart test g = true ↔ test g = true ∧ (∀ g' ∈ g.beside, everyPart test g' = true)
      ∧ ∀ g' ∈ g.beneath, everyPart test g' = true := by
  cases g <;> simp [everyPart, everyPartOf_eq, everyPartOfCases_eq, beside, beneath]

/-- A list has no conditions if none of its grammars has any. -/
theorem areUnconditional_eq (gs : List Grammar) :
    areUnconditional gs = gs.all isUnconditional := by
  induction gs with
  | nil => rfl
  | cons g gs ih => exact congrArg (g.isUnconditional && ·) ih

theorem casesUnconditional_eq (cases : List Case) :
    casesUnconditional cases = (cases.map Case.pattern).all isUnconditional := by
  induction cases with
  | nil => rfl
  | cons c cases ih =>
      obtain ⟨g, body⟩ := c
      exact congrArg (g.isUnconditional && ·) ih

/-- A list is guarded if all its grammars are. -/
theorem areGuarded_eq (gs : List Grammar) : areGuarded gs = gs.all isGuarded := by
  induction gs with
  | nil => rfl
  | cons g gs ih => exact congrArg (g.isGuarded && ·) ih

theorem casesGuarded_eq (cases : List Case) :
    casesGuarded cases = (cases.map Case.pattern).all isGuarded := by
  induction cases with
  | nil => rfl
  | cons c cases ih =>
      obtain ⟨g, body⟩ := c
      exact congrArg (g.isGuarded && ·) ih

/-- The parts of a pattern without conditions have none. -/
theorem isUnconditional_beside {g g' : Grammar} (hg : g.isUnconditional = true)
    (h : g' ∈ g.beside) : g'.isUnconditional = true := by
  cases g with
  | all gs => exact List.all_eq_true.mp (areUnconditional_eq gs ▸ hg) g' h
  | any gs => exact List.all_eq_true.mp (areUnconditional_eq gs ▸ hg) g' h
  | except g => exact List.mem_singleton.mp h ▸ hg
  | choose c yes no => cases hg
  | switch cases => exact List.all_eq_true.mp (casesUnconditional_eq cases ▸ hg) g' h
  | _ => cases h

/-- What is asked about the children of a grammar without conditions has none either. -/
theorem isUnconditional_beneath {g g' : Grammar} (hg : g.isUnconditional = true)
    (h : g' ∈ g.beneath) : g'.isUnconditional = true := by
  cases g with
  | node tag? gs => exact List.all_eq_true.mp (areUnconditional_eq gs ▸ hg) g' h
  | vararg tag? leading rest =>
      obtain ⟨hrest, hleading⟩ := Bool.and_eq_true_iff.mp hg
      rcases List.mem_cons.mp h with rfl | hmem
      · exact hrest
      · exact List.all_eq_true.mp (areUnconditional_eq leading ▸ hleading) g' hmem
  | _ => cases h

/-- In a guarded pattern the parts that the same tree meets are guarded. -/
theorem isGuarded_beside {g g' : Grammar} (hg : g.isGuarded = true) (h : g' ∈ g.beside) :
    g'.isGuarded = true := by
  cases g with
  | all gs => exact List.all_eq_true.mp (areGuarded_eq gs ▸ hg) g' h
  | any gs => exact List.all_eq_true.mp (areGuarded_eq gs ▸ hg) g' h
  | except g => exact List.mem_singleton.mp h ▸ hg
  | choose c yes no =>
      obtain ⟨hyes, hno⟩ := Bool.and_eq_true_iff.mp hg
      have : g' = yes ∨ g' = no := by simpa [beside] using h
      rcases this with rfl | rfl
      · exact hyes
      · exact hno
  | switch cases => exact List.all_eq_true.mp (casesGuarded_eq cases ▸ hg) g' h
  | _ => cases h

/-! ## The reading -/

/-- The tree is a leaf, and its literal passes the test. -/
def holds (p : Literal → Bool) : Tree → Bool
  | .leaf v => p v
  | .node _ _ => false

/-- Each child passes the test in its place, and there are as many of both. -/
def each : List (Tree → Bool) → List Tree → Bool
  | [], [] => true
  | p :: ps, c :: cs => p c && each ps cs
  | _, _ => false

/-- There is a child for each test in the front, which it passes, and all later ones pass the
last test. -/
def eachThen (rest : Tree → Bool) : List (Tree → Bool) → List Tree → Bool
  | [], cs => cs.all rest
  | p :: ps, c :: cs => p c && eachThen rest ps cs
  | _ :: _, [] => false

mutual
/-- What a pattern without conditions says of a tree, if `recurse` says `again`. -/
def readingIn (again : Tree → Bool) : Grammar → Tree → Bool
  | .wildcard, _ => true
  | .exact s, t => s = Signature.of t
  | .terminal kind?, t => holds (fun v => kind?.all (· == v.kind)) t
  | .literal l, t => holds (·.equal l) t
  | .node tag? gs, t => tag?.all (· == t.tag) && each (readingsIn again gs) t.children
  | .vararg tag? leading rest, t =>
    !t.isTerminal && tag?.all (· == t.tag)
      && eachThen (readingIn again rest) (readingsIn again leading) t.children
  | .all gs, t => (readingsIn again gs).all (· t)
  | .any gs, t => (readingsIn again gs).any (· t)
  | .except g, t => !readingIn again g t
  | .choose _ _ _, _ => false
  | .switch cases, t => (caseReadingsIn again cases).any (· t)
  | .recurse, t => again t
/-- What the patterns of a list say. -/
def readingsIn (again : Tree → Bool) : List Grammar → List (Tree → Bool)
  | [] => []
  | g :: gs => readingIn again g :: readingsIn again gs
/-- What the patterns of a list of cases say. -/
def caseReadingsIn (again : Tree → Bool) : List Case → List (Tree → Bool)
  | [] => []
  | ⟨g, _⟩ :: cs => readingIn again g :: caseReadingsIn again cs
end

/-- The patterns of a list are read one by one. -/
theorem readingsIn_eq (again : Tree → Bool) (gs : List Grammar) :
    readingsIn again gs = gs.map (readingIn again) := by
  induction gs with
  | nil => rfl
  | cons g gs ih => exact congrArg (readingIn again g :: ·) ih

theorem caseReadingsIn_eq (again : Tree → Bool) (cases : List Case) :
    caseReadingsIn again cases = cases.map (fun c => readingIn again c.pattern) := by
  induction cases with
  | nil => rfl
  | cons c cases ih =>
      obtain ⟨g, body⟩ := c
      exact congrArg (readingIn again g :: ·) ih

/-- What a grammar says of the trees up to a depth, `recurse` meaning the grammar itself. -/
def readingWithin (g : Grammar) : Nat → Tree → Bool
  | 0, _ => false
  | depth + 1, t => g.readingIn (g.readingWithin depth) t

/-- What a grammar without conditions says of a tree, `recurse` meaning the grammar itself. -/
def reading (g : Grammar) (t : Tree) : Bool :=
  g.readingWithin t.depth t

/-! ## Nodes with a tag and one or two children -/

section Shapes

variable {again p q : Tree → Bool} {tag : Tag} {g g' : Grammar} {t : Tree} {cs : List Tree}

/-- A single test passes on a single item. -/
theorem each_singleton : each [p] cs = true ↔ ∃ a, cs = [a] ∧ p a = true := by
  match cs with
  | [] => simp [each]
  | [a] => simp [each]
  | a :: b :: cs => simp [each]

/-- Two tests pass on two items, each on its own. -/
theorem each_pair : each [p, q] cs = true ↔ ∃ a b, cs = [a, b] ∧ p a = true ∧ q b = true := by
  match cs with
  | [] => simp [each]
  | [a] => simp [each]
  | [a, b] =>
      rw [each, each, each, Bool.and_true, Bool.and_eq_true_iff]
      constructor
      · intro h
        exact ⟨a, b, rfl, h⟩
      · rintro ⟨a', b', heq, h⟩
        cases heq
        exact h
  | a :: b :: c :: cs => simp [each]

/-- A pattern with one child accepts the nodes whose only child its pattern accepts. -/
theorem readingIn_node_singleton : (node (some tag) [g]).readingIn again t = true
    ↔ ∃ a, t = .node tag [a] ∧ g.readingIn again a = true := by
  rw [readingIn, Bool.and_eq_true_iff]
  show (tag == t.tag) = true ∧ each [g.readingIn again] t.children = true ↔ _
  rw [each_singleton]
  constructor
  · rintro ⟨htag, a, hchildren, ha⟩
    refine ⟨a, ?_, ha⟩
    rw [Tree.eq_node_of_children hchildren, ← beq_iff_eq.mp htag]
  · rintro ⟨a, rfl, ha⟩
    exact ⟨beq_iff_eq.mpr rfl, a, rfl, ha⟩

/-- A pattern with two children accepts the nodes whose children these accept in turn. -/
theorem readingIn_node_pair : (node (some tag) [g, g']).readingIn again t = true
    ↔ ∃ a b, t = .node tag [a, b] ∧ g.readingIn again a = true ∧ g'.readingIn again b = true := by
  rw [readingIn, Bool.and_eq_true_iff]
  show (tag == t.tag) = true ∧ each [g.readingIn again, g'.readingIn again] t.children = true ↔ _
  rw [each_pair]
  constructor
  · rintro ⟨htag, a, b, hchildren, ha, hb⟩
    refine ⟨a, b, ?_, ha, hb⟩
    rw [Tree.eq_node_of_children hchildren, ← beq_iff_eq.mp htag]
  · rintro ⟨a, b, rfl, ha, hb⟩
    exact ⟨beq_iff_eq.mpr rfl, a, b, rfl, ha, hb⟩

end Shapes

/-! ## Which trees `recurse` is asked about -/

/-- Reading the pattern asks `recurse` about trees up to this depth only. -/
def AsksWithin (depth : Nat) (g : Grammar) (t : Tree) : Prop :=
  t.depth ≤ depth ∨ (t.depth ≤ depth + 1 ∧ g.isGuarded = true)

namespace AsksWithin

variable {depth : Nat} {g g' : Grammar} {t c : Tree}

/-- A part that looks at the same tree asks for recursion no deeper. -/
theorem beside (h : AsksWithin depth g t) (hg : g' ∈ g.beside) : AsksWithin depth g' t := by
  rcases h with hdepth | ⟨hdepth, hguarded⟩
  · exact Or.inl hdepth
  · exact Or.inr ⟨hdepth, isGuarded_beside hguarded hg⟩

/-- The children of a tree ask for recursion no deeper. -/
theorem child (h : AsksWithin depth g t) (hc : c ∈ t.children) : AsksWithin depth g' c := by
  have hlt := Tree.depth_lt_of_mem_children hc
  rcases h with hdepth | ⟨hdepth, -⟩
  · exact Or.inl (Nat.le_of_lt (Nat.lt_of_lt_of_le hlt hdepth))
  · exact Or.inl (Nat.le_of_lt_succ (Nat.lt_of_lt_of_le hlt hdepth))

/-- Where recursion itself is asked for, the tree is within the depth. -/
theorem recurse (h : AsksWithin depth .recurse t) : t.depth ≤ depth := by
  rcases h with hdepth | ⟨-, hguarded⟩
  · exact hdepth
  · cases hguarded

end AsksWithin

section Congruence

variable {p p' : Grammar → Tree → Bool}

theorem all_congr_mem {α : Type} {l : List α} {q q' : α → Bool} (h : ∀ a ∈ l, q a = q' a) :
    l.all q = l.all q' := by
  rw [Bool.eq_iff_iff, List.all_eq_true, List.all_eq_true]
  exact forall₂_congr fun a ha => by rw [h a ha]

theorem any_congr_mem {α : Type} {l : List α} {q q' : α → Bool} (h : ∀ a ∈ l, q a = q' a) :
    l.any q = l.any q' := by
  rw [Bool.eq_iff_iff, List.any_eq_true, List.any_eq_true]
  exact exists_congr fun a => and_congr_right fun ha => by rw [h a ha]

/-- The tests of a list may be replaced by others that agree on the items. -/
theorem each_congr {gs : List Grammar} {cs : List Tree}
    (h : ∀ g ∈ gs, ∀ c ∈ cs, p g c = p' g c) : each (gs.map p) cs = each (gs.map p') cs := by
  induction gs generalizing cs with
  | nil => rfl
  | cons g gs ih =>
      cases cs with
      | nil => rfl
      | cons c cs =>
          show (p g c && each (gs.map p) cs) = (p' g c && each (gs.map p') cs)
          rw [h g (List.mem_cons_self ..) c (List.mem_cons_self ..),
            ih fun g hg c hc => h g (List.mem_cons_of_mem _ hg) c (List.mem_cons_of_mem _ hc)]

/-- So may the leading tests and the one for the rest. -/
theorem eachThen_congr {rest : Grammar} {gs : List Grammar} {cs : List Tree}
    (h : ∀ g ∈ rest :: gs, ∀ c ∈ cs, p g c = p' g c) :
    eachThen (p rest) (gs.map p) cs = eachThen (p' rest) (gs.map p') cs := by
  induction gs generalizing cs with
  | nil => exact all_congr_mem (h rest (List.mem_cons_self ..))
  | cons g gs ih =>
      cases cs with
      | nil => rfl
      | cons c cs =>
          show (p g c && eachThen (p rest) (gs.map p) cs)
            = (p' g c && eachThen (p' rest) (gs.map p') cs)
          have htail : ∀ g' ∈ rest :: gs, ∀ c' ∈ cs, p g' c' = p' g' c' := by
            intro g' hg' c' hc'
            refine h g' ?_ c' (List.mem_cons_of_mem _ hc')
            rcases List.mem_cons.mp hg' with rfl | hmem
            · exact List.mem_cons_self ..
            · exact List.mem_cons_of_mem _ (List.mem_cons_of_mem _ hmem)
          rw [h g (List.mem_cons_of_mem _ (List.mem_cons_self ..)) c (List.mem_cons_self ..),
            ih htail]

end Congruence

/-- What a pattern says depends on what `recurse` says of the trees it is asked about. -/
theorem readingIn_congr {again again' : Tree → Bool} {depth : Nat}
    (hagain : ∀ t, t.depth ≤ depth → again t = again' t) (g : Grammar) :
    ∀ t, AsksWithin depth g t → readingIn again g t = readingIn again' g t := by
  induction g using induction_on_parts with
  | step g hbeside hbeneath =>
      intro t hasks
      have hpart : ∀ g' ∈ g.beside, readingIn again g' t = readingIn again' g' t :=
        fun g' hg' => hbeside g' hg' t (hasks.beside hg')
      have hchild : ∀ g' ∈ g.beneath, ∀ c ∈ t.children,
          readingIn again g' c = readingIn again' g' c :=
        fun g' hg' c hc => hbeneath g' hg' c (hasks.child hc)
      cases g with
      | wildcard => rfl
      | exact s => rfl
      | terminal kind? => rfl
      | literal l => rfl
      | node tag? gs =>
          rw [readingIn, readingIn, readingsIn_eq, readingsIn_eq]
          exact congrArg _ (each_congr hchild)
      | vararg tag? leading rest =>
          rw [readingIn, readingIn, readingsIn_eq, readingsIn_eq]
          exact congrArg _ (eachThen_congr hchild)
      | all gs =>
          rw [readingIn, readingIn, readingsIn_eq, readingsIn_eq, List.all_map, List.all_map]
          exact all_congr_mem hpart
      | any gs =>
          rw [readingIn, readingIn, readingsIn_eq, readingsIn_eq, List.any_map, List.any_map]
          exact any_congr_mem hpart
      | except g =>
          rw [readingIn, readingIn, hpart g (List.mem_singleton.mpr rfl)]
      | choose c yes no => rfl
      | switch cases =>
          rw [readingIn, readingIn, caseReadingsIn_eq, caseReadingsIn_eq, List.any_map,
            List.any_map]
          exact any_congr_mem fun c hc => hpart c.pattern (List.mem_map_of_mem hc)
      | recurse => exact hagain t hasks.recurse

/-- Any bound on the depth gives the same reading of a guarded grammar. -/
theorem readingWithin_eq {g : Grammar} (hg : g.isGuarded = true) {n n' : Nat} :
    ∀ t, t.depth ≤ n → t.depth ≤ n' → g.readingWithin n t = g.readingWithin n' t := by
  induction n generalizing n' with
  | zero =>
      intro t hn
      exact absurd t.depth_pos (Nat.not_lt.mpr hn)
  | succ n ih =>
      intro t hn hn'
      cases n' with
      | zero => exact absurd t.depth_pos (Nat.not_lt.mpr hn')
      | succ n' =>
          -- `recurse` is asked about children alone, and for these the smaller bound is enough
          have hagain : ∀ t', t'.depth ≤ min n n' →
              g.readingWithin n t' = g.readingWithin n' t' := by
            intro t' ht'
            exact ih t' (by omega) (by omega)
          rw [readingWithin, readingWithin]
          exact readingIn_congr hagain g t (Or.inr ⟨by omega, hg⟩)

/-- In the reading of a guarded grammar `recurse` is the reading itself. -/
theorem reading_eq {g : Grammar} (hg : g.isGuarded = true) (t : Tree) :
    g.reading t = g.readingIn g.reading t := by
  have hpos := t.depth_pos
  have hdepth : t.depth = t.depth - 1 + 1 := by omega
  rw [reading, hdepth, readingWithin]
  refine readingIn_congr ?_ g t (Or.inr ⟨Nat.le_of_eq hdepth, hg⟩)
  intro t' ht'
  exact readingWithin_eq hg t' ht' (Nat.le_refl _)

end Grammar

end TreeGrammar
