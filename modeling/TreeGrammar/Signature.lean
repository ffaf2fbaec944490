import TreeGrammar.Tree

/-! # Signatures — trees without their values

    A signature keeps the tags and the shape of a tree and, of every leaf, the kind of
    its literal.  A signature can be built that no tree has.  Main notions:
    `Signature.of`, the signature of a tree, and `Signature.describes`, which compares
    a signature with a tree without building the tree's own. -/

namespace TreeGrammar

/-- A tag with the kind of the held value, if there is one, and the signatures of the children. -/
inductive Signature where
  | mk (tag : Tag) (kind : Option Kind) (children : List Signature)
  deriving Inhabited

namespace Signature

/-- The signature of leaves of a kind. -/
def terminal (kind : Kind) : Signature :=
  .mk (.builtin .terminal) (some kind) []

/-- The signature of nodes with a tag and children, of any shape. -/
def node (tag : Tag) (children : List Signature) : Signature :=
  .mk tag none children

/-- The tag. -/
def tag : Signature → Tag
  | .mk t _ _ => t

/-- The kind of the held value. -/
def kind : Signature → Option Kind
  | .mk _ k _ => k

/-- The signatures of the children. -/
def children : Signature → List Signature
  | .mk _ _ cs => cs

mutual
/-- The signature of a tree. -/
def of : Tree → Signature
  | .leaf v => terminal v.kind
  | .node t cs => node t (ofAll cs)
/-- The signatures of a list of trees. -/
def ofAll : List Tree → List Signature
  | [] => []
  | c :: cs => of c :: ofAll cs
end

mutual
/-- Whether a tree has this signature. -/
def describes : Signature → Tree → Bool
  | .mk tag kind cs, t =>
    tag == t.tag && kind == t.value?.map Literal.kind && cs.length == t.arity
      && describesAll cs t.children
/-- Whether trees have these signatures, as far as both lists go. -/
def describesAll : List Signature → List Tree → Bool
  | s :: ss, t :: ts => describes s t && describesAll ss ts
  | _, _ => true
end

mutual
/-- Whether two signatures are the same. -/
def same : Signature → Signature → Bool
  | .mk t k cs, .mk t' k' cs' => t == t' && k == k' && sameAll cs cs'
/-- Whether two lists of signatures are the same. -/
def sameAll : List Signature → List Signature → Bool
  | [], [] => true
  | s :: ss, s' :: ss' => same s s' && sameAll ss ss'
  | _, _ => false
end

mutual
/-- The written form of a signature: the kind alone, or the tag and children in parentheses. -/
def text : Signature → String
  | .mk _ (some kind) _ => kind.name
  | .mk tag none cs => "(" ++ tag.name ++ texts cs ++ ")"
/-- The written forms of a list of signatures, a space before each. -/
def texts : List Signature → String
  | [] => ""
  | s :: ss => " " ++ text s ++ texts ss
end

mutual
/-- The test decides equality of signatures. -/
theorem same_iff (a b : Signature) : same a b = true ↔ a = b := by
  match a, b with
  | .mk t k cs, .mk t' k' cs' =>
    simp [same, sameAll_iff cs cs', and_assoc]
theorem sameAll_iff (as bs : List Signature) : sameAll as bs = true ↔ as = bs := by
  match as, bs with
  | [], [] => simp [sameAll]
  | a :: as, b :: bs => simp [sameAll, same_iff a b, sameAll_iff as bs]
  | [], _ :: _ => simp [sameAll]
  | _ :: _, [] => simp [sameAll]
end

instance : DecidableEq Signature := fun a b =>
  decidable_of_iff (same a b = true) (same_iff a b)

end Signature

end TreeGrammar
