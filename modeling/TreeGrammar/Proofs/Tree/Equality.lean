import Mathlib
import TreeGrammar.Value

/-! # Equality of trees — what the comparison with a stack decides

    The stack holds pairs of trees in an order that has nothing to do with the order in
    the trees.  What matters is only that the answer is `true` just if the trees of every
    pair on it are alike, and that the pairs of children stand for the pair they come
    from.  Two trees are alike if their signatures are equal and so are their literals,
    from left to right.  This relation has the laws that equality of literals has. -/

namespace TreeGrammar

/-! ## Equality of literals -/

namespace Literal

/-- The literal is a NaN; no other literal differs from itself. -/
def isNaN : Literal → Bool
  | .float x => x.isNaN
  | _ => false

theorem equal_comm (v w : Literal) : v.equal w = w.equal v := by
  cases v <;> cases w <;> first | exact BEq.comm | rfl

/-- Equality of literals is transitive. -/
theorem equal_trans {u v w : Literal} (huv : u.equal v = true) (hvw : v.equal w = true) :
    u.equal w = true := by
  -- literals of different kinds are not equal
  cases u <;> cases v <;> cases w <;> first
    | rfl
    | exact BEq.trans huv hvw
    | (cases huv; done)
    | cases hvw

/-- Place by place, it is transitive on lists. -/
theorem equalLists_trans {us vs ws : List Literal}
    (huv : List.Forall₂ (fun u v => u.equal v = true) us vs)
    (hvw : List.Forall₂ (fun v w => v.equal w = true) vs ws) :
    List.Forall₂ (fun u w => u.equal w = true) us ws := by
  induction huv generalizing ws with
  | nil => exact hvw
  | cons hhead _ ih =>
      cases hvw with
      | cons hhead' htail => exact .cons (equal_trans hhead hhead') (ih htail)

/-- A literal equals itself unless it is not a number. -/
theorem equal_self_iff {v : Literal} : v.equal v = true ↔ v.isNaN = false := by
  cases v with
  | float x =>
      show (x == x) = true ↔ x.isNaN = false
      rw [Float.beq_self_iff, Float.isNaN_eq_decide_eq_nan, decide_eq_false_iff_not]
  | unit => exact ⟨fun _ => rfl, fun _ => rfl⟩
  | _ => exact ⟨fun _ => rfl, fun _ => beq_self_eq_true _⟩

/-- A NaN equals nothing. -/
theorem equal_eq_false_of_isNaN {v : Literal} (hv : v.isNaN = true) (w : Literal) :
    v.equal w = false := by
  cases hvw : v.equal w with
  | false => rfl
  | true =>
      have hself : v.equal v = true := equal_trans hvw (equal_comm v w ▸ hvw)
      rw [equal_self_iff.mp hself] at hv
      cases hv

/-- Equal literals are of one kind. -/
theorem kind_eq_of_equal {v w : Literal} (h : v.equal w = true) : v.kind = w.kind := by
  cases v <;> cases w <;> first | rfl | cases h

end Literal

namespace Tree

/-! ## Trees that are alike -/

/-- The trees have the same shape and tags, and equal literals in the same places. -/
structure Alike (a b : Tree) : Prop where
  signature : Signature.of a = Signature.of b
  literals : List.Forall₂ (fun v w => v.equal w = true) a.literals b.literals

mutual
/-- A signature tells how many literals there are. -/
theorem length_literals_eq {a b : Tree} (h : Signature.of a = Signature.of b) :
    a.literals.length = b.literals.length := by
  match a, b with
  | .leaf v, .leaf w => rfl
  | .leaf v, .node tag cs => cases h
  | .node tag cs, .leaf w => cases h
  | .node tag cs, .node tag' cs' => exact length_literalsOf_eq (Signature.mk.inj h).2.2
/-- Lists of the same signatures have as many literals. -/
theorem length_literalsOf_eq {as bs : List Tree} (h : Signature.ofAll as = Signature.ofAll bs) :
    (literalsOf as).length = (literalsOf bs).length := by
  match as, bs with
  | [], [] => rfl
  | [], b :: bs => cases h
  | a :: as, [] => cases h
  | a :: as, b :: bs =>
      obtain ⟨hhead, htail⟩ := List.cons.inj h
      rw [literalsOf, literalsOf, List.length_append, List.length_append,
        length_literals_eq hhead, length_literalsOf_eq htail]
end

/-- Trees of two lists are alike in pairs if the lists have the same signatures and literals. -/
theorem forall₂_alike_iff {as bs : List Tree} : List.Forall₂ Alike as bs
    ↔ Signature.ofAll as = Signature.ofAll bs
      ∧ List.Forall₂ (fun v w => v.equal w = true) (literalsOf as) (literalsOf bs) := by
  induction as generalizing bs with
  | nil =>
      cases bs with
      | nil => exact ⟨fun _ => ⟨rfl, .nil⟩, fun _ => .nil⟩
      | cons b bs => exact ⟨nofun, fun h => absurd h.1 nofun⟩
  | cons a as ih =>
      cases bs with
      | nil => exact ⟨nofun, fun h => absurd h.1 nofun⟩
      | cons b bs =>
          rw [List.forall₂_cons, ih, Signature.ofAll, Signature.ofAll, List.cons.injEq, literalsOf,
            literalsOf]
          constructor
          · rintro ⟨⟨hsignature, hliterals⟩, hsignatures, hrest⟩
            exact ⟨⟨hsignature, hsignatures⟩, List.rel_append hliterals hrest⟩
          · rintro ⟨⟨hsignature, hsignatures⟩, hliterals⟩
            -- the literals of both heads are as many, so the lists are cut at one place
            have hlength : a.literals.length = b.literals.length := length_literals_eq hsignature
            have hhead := List.forall₂_take a.literals.length hliterals
            have htail := List.forall₂_drop a.literals.length hliterals
            rw [List.take_left, hlength, List.take_left] at hhead
            rw [List.drop_left, hlength, List.drop_left] at htail
            exact ⟨⟨hsignature, hhead⟩, hsignatures, htail⟩

/-- Trees are alike if their heads are the same and their children are alike in pairs. -/
theorem alike_step_iff {a b : Tree} :
    Alike a b ↔ sameHead a b = true ∧ List.Forall₂ Alike a.children b.children := by
  match a, b with
  | .leaf v, .leaf w =>
      have hsame : sameHead (.leaf v) (.leaf w) = v.equal w := rfl
      rw [hsame]
      constructor
      · rintro ⟨-, hliterals⟩
        exact ⟨(List.forall₂_cons.mp hliterals).1, .nil⟩
      · rintro ⟨hequal, -⟩
        refine ⟨?_, .cons hequal .nil⟩
        rw [Signature.of, Signature.of, Literal.kind_eq_of_equal hequal]
  | .leaf v, .node tag cs =>
      have hsame : sameHead (.leaf v) (.node tag cs) = false := Bool.and_false _
      rw [hsame]
      exact ⟨fun h => absurd h.signature nofun, fun h => absurd h.1 nofun⟩
  | .node tag cs, .leaf w =>
      have hsame : sameHead (.node tag cs) (.leaf w) = false := Bool.and_false _
      rw [hsame]
      exact ⟨fun h => absurd h.signature nofun, fun h => absurd h.1 nofun⟩
  | .node tag cs, .node tag' cs' =>
      have hsame : sameHead (.node tag cs) (.node tag' cs') = true
          ↔ tag = tag' ∧ cs.length = cs'.length := by
        show ((tag == tag' && cs.length == cs'.length) && true) = true ↔ _
        rw [Bool.and_true, Bool.and_eq_true, beq_iff_eq, beq_iff_eq]
      rw [hsame, forall₂_alike_iff]
      constructor
      · rintro ⟨hsignature, hliterals⟩
        obtain ⟨htag, -, hsignatures⟩ := Signature.mk.inj hsignature
        have halike : List.Forall₂ Alike cs cs' := forall₂_alike_iff.mpr ⟨hsignatures, hliterals⟩
        exact ⟨⟨htag, halike.length_eq⟩, hsignatures, hliterals⟩
      · rintro ⟨⟨rfl, -⟩, hsignatures, hliterals⟩
        exact ⟨congrArg (Signature.mk tag none) hsignatures, hliterals⟩

/-! ## The stack -/

/-- The comparison of the pairs on a stack ends in a verdict after so many of them are taken off. -/
inductive Compared : List (Tree × Tree) → Nat → Bool → Prop where
  | empty : Compared [] 0 true
  | differ {a b : Tree} {rest : List (Tree × Tree)} (h : sameHead a b = false) :
      Compared ((a, b) :: rest) 1 false
  | next {a b : Tree} {rest : List (Tree × Tree)} {n : Nat} {verdict : Bool}
      (h : sameHead a b = true) (hnext : Compared (childPairs a b ++ rest) n verdict) :
      Compared ((a, b) :: rest) (n + 1) verdict

/-- No more pairs are taken off than there are leaves and nodes in the first components. -/
theorem compared_allAlike (pairs : List (Tree × Tree)) :
    ∃ n, n ≤ sizes (pairs.map Prod.fst) ∧ Compared pairs n (allAlike pairs) := by
  fun_induction allAlike pairs with
  | case1 => exact ⟨0, Nat.zero_le _, .empty⟩
  | case2 a b rest ih =>
      have hlt := sizes_childPairs_lt a b rest
      cases hsame : sameHead a b with
      | false => exact ⟨1, Nat.lt_of_le_of_lt (Nat.zero_le _) hlt, .differ hsame⟩
      | true =>
          obtain ⟨n, hn, hcompared⟩ := ih
          exact ⟨n + 1, Nat.lt_of_le_of_lt hn hlt, .next hsame hcompared⟩

/-- The pairs of children are all alike just if the children are alike in pairs, as long as there
are as many. -/
theorem childPairs_alike_iff {a b : Tree} (harity : a.arity = b.arity) :
    (∀ p ∈ childPairs a b, Alike p.1 p.2) ↔ List.Forall₂ Alike a.children b.children := by
  rw [List.forall₂_iff_zip]
  constructor
  · intro h
    exact ⟨harity, fun hmem => h _ (List.mem_reverse.mpr hmem)⟩
  · rintro ⟨-, h⟩ p hp
    exact h (List.mem_reverse.mp hp)

/-- The invariant of the loop: the verdict is `true` just if the trees of all pairs are alike. -/
theorem allAlike_iff (pairs : List (Tree × Tree)) :
    allAlike pairs = true ↔ ∀ p ∈ pairs, Alike p.1 p.2 := by
  fun_induction allAlike pairs with
  | case1 => exact ⟨fun _ => nofun, fun _ => rfl⟩
  | case2 a b rest ih =>
      rw [Bool.and_eq_true, ih, List.forall_mem_append, List.forall_mem_cons, alike_step_iff,
        and_assoc]
      -- the arities are equal, so no child is left over
      refine and_congr_right fun hsame => and_congr_left' (childPairs_alike_iff ?_)
      have harity := (Bool.and_eq_true_iff.mp (Bool.and_eq_true_iff.mp hsame).1).2
      exact beq_iff_eq.mp harity

/-- The loop over pairs of trees decides whether two trees are alike. -/
theorem alike_iff {a b : Tree} : a.alike b = true ↔ Alike a b := by
  rw [alike, allAlike_iff, List.forall_mem_singleton]

/-! ## Laws -/

namespace Alike

variable {a b c : Tree}

theorem symm (h : Alike a b) : Alike b a where
  signature := h.signature.symm
  literals := h.literals.flip.imp fun v w hequal => (Literal.equal_comm v w).trans hequal

theorem trans (hab : Alike a b) (hbc : Alike b c) : Alike a c where
  signature := hab.signature.trans hbc.signature
  literals := Literal.equalLists_trans hab.literals hbc.literals

theorem refl_iff : Alike a a ↔ ∀ v ∈ a.literals, v.isNaN = false := by
  constructor
  · intro h v hv
    exact Literal.equal_self_iff.mp (List.forall₂_same.mp h.literals v hv)
  · intro h
    exact ⟨rfl, List.forall₂_same.mpr fun v hv => Literal.equal_self_iff.mpr (h v hv)⟩

end Alike

/-- The comparison ends after no more rounds than the first tree has leaves and nodes.  It finds two
trees alike just if their signatures are equal and so are their literals, from left to right, where
zeros of both signs are equal, a NaN equals nothing and an integer no double.  So it is symmetric
and transitive, and a tree is like itself just if it holds no NaN.  Values that are trees are
compared in this way. -/
theorem alike_decides (a b : Tree) :
    (∃ rounds, rounds ≤ a.size ∧ Compared [(a, b)] rounds (a.alike b))
      ∧ (a.alike b = true ↔ Signature.of a = Signature.of b
          ∧ List.Forall₂ (fun v w => v.equal w = true) a.literals b.literals)
      ∧ ((Literal.float 0.0).equal (.float (-0.0)) = true
          ∧ (∀ v w : Literal, v.isNaN = true → v.equal w = false)
          ∧ ∀ n x, (Literal.int n).equal (.float x) = false)
      ∧ b.alike a = a.alike b
      ∧ (∀ c, a.alike b = true → b.alike c = true → a.alike c = true)
      ∧ (a.alike a = true ↔ ∀ v ∈ a.literals, v.isNaN = false)
      ∧ (Value.node a).equal (.node b) = a.alike b := by
  refine ⟨?ends, ?verdict, ⟨?zeros, ?nans, ?kinds⟩, ?symmetric, ?transitive, ?reflexive, rfl⟩
  case ends =>
    obtain ⟨n, hn, hcompared⟩ := compared_allAlike [(a, b)]
    exact ⟨n, hn, hcompared⟩
  case verdict => exact alike_iff.trans ⟨fun h => ⟨h.signature, h.literals⟩, fun h => ⟨h.1, h.2⟩⟩
  case zeros => decide
  case nans => exact fun v w hv => Literal.equal_eq_false_of_isNaN hv w
  case kinds => exact fun _ _ => rfl
  case symmetric =>
    rw [Bool.eq_iff_iff, alike_iff, alike_iff]
    exact ⟨Alike.symm, Alike.symm⟩
  case transitive =>
    intro c hab hbc
    exact alike_iff.mpr ((alike_iff.mp hab).trans (alike_iff.mp hbc))
  case reflexive => exact alike_iff.trans Alike.refl_iff

/-- Zeros of both signs below one operator, first one way round and then the other. -/
theorem alike_decides_zeros :
    (node (.builtin .plus) [leaf (.float 0.0), leaf (.sym "x")]).alike
        (node (.builtin .plus) [leaf (.float (-0.0)), leaf (.sym "x")]) = true
      ∧ (node (.builtin .plus) [leaf (.float (-0.0)), leaf (.sym "x")]).alike
        (node (.builtin .plus) [leaf (.float 0.0), leaf (.sym "x")]) = true
      ∧ (node (.builtin .plus) [leaf (.float 0.0), leaf (.sym "x")]).alike
        (node (.builtin .plus) [leaf (.float 0.0), leaf (.sym "x")]) = true := by
  have hzeros : (node (.builtin .plus) [leaf (.float 0.0), leaf (.sym "x")]).alike
      (node (.builtin .plus) [leaf (.float (-0.0)), leaf (.sym "x")]) = true :=
    (alike_decides _ _).2.1.mpr ⟨rfl, .cons (by decide) (.cons (by decide) .nil)⟩
  have hflipped := (alike_decides _ _).2.2.2.1.trans hzeros
  exact ⟨hzeros, hflipped, (alike_decides _ _).2.2.2.2.1 _ hzeros hflipped⟩

end Tree

end TreeGrammar
