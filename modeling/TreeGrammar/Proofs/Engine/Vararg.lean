import Mathlib.Data.List.Zip
import TreeGrammar.Proofs.Engine.Recursion
import TreeGrammar.Proofs.Verdict

/-! # Varargs — the patterns of a fixed length that one stands for

    A vararg gives the child of each index its pattern: one of the leading ones or, past
    them, the rest.  On a node with enough children this is the pattern that lists the
    leading ones and then the rest as often as there are children left.  The matcher and
    the runner go through children and patterns each in a way of its own, and all of
    these are the one pairing of `zip_spread`.  On a leaf, and with fewer children than
    leading patterns, a vararg accepts nothing. -/

namespace TreeGrammar

/-- The patterns of a vararg for a number of children. -/
def Grammar.spread (leading : List Grammar) (rest : Grammar) (n : Nat) : List Grammar :=
  leading ++ List.replicate (n - leading.length) rest

namespace Level

open Grammar (spread)

section Pairing

variable {leading : List Grammar} {rest : Grammar}

/-- The patterns are spread over all children. -/
theorem length_spread {n : Nat} (h : leading.length ≤ n) :
    (spread leading rest n).length = n := by
  rw [spread, List.length_append, List.length_replicate, Nat.add_sub_cancel' h]

/-- Each child gets the pattern at its place. -/
theorem getElem_spread {n i : Nat} (hi : i < (spread leading rest n).length) :
    (spread leading rest n)[i] = patternAt leading rest i := by
  revert hi
  rw [spread, patternAt, List.getD_eq_getElem?_getD]
  intro hi
  by_cases hleading : i < leading.length
  · rw [List.getElem_append_left hleading, List.getElem?_eq_getElem hleading, Option.getD_some]
  · have hbeyond : leading.length ≤ i := Nat.le_of_not_lt hleading
    rw [List.getElem_append_right hbeyond, List.getElem_replicate,
      List.getElem?_eq_none hbeyond, Option.getD_none]

/-- Each child meets the pattern of its index. -/
theorem zip_spread {cs : List Tree} (h : leading.length ≤ cs.length) :
    cs.zip (spread leading rest cs.length)
      = cs.zipIdx.map fun (c, i) => (c, patternAt leading rest i) := by
  have hlength : (spread leading rest cs.length).length = cs.length := length_spread h
  refine List.ext_getElem ?_ fun i hi hi' => ?_
  · rw [List.length_zip, List.length_map, List.length_zipIdx, hlength, Nat.min_self]
  · rw [List.getElem_zip, List.getElem_map, List.getElem_zipIdx, getElem_spread, Nat.zero_add]

end Pairing

variable {m : Type → Type} [Monad m] [MonadExcept Error m] {below : Level m}
  {root? : Option Grammar} {t : Tree} {tag? : Option Tag} {leading : List Grammar}
  {rest : Grammar}

/-- Matching, one step. -/
theorem acceptsStep_vararg (hnode : t.isTerminal = false) (hcount : leading.length ≤ t.arity) :
    acceptsStep below root? t (.vararg tag? leading rest)
      = acceptsStep below root? t (.node tag? (spread leading rest t.arity)) := by
  have hlength : (spread leading rest t.arity).length = t.arity := length_spread hcount
  have hpairs : (spread leading rest t.arity).zip t.children
      = t.children.zipIdx.map fun q => (patternAt leading rest q.2, q.1) := by
    rw [← List.zip_swap, Tree.arity, zip_spread hcount, List.map_map]
    rfl
  have hall : ((spread leading rest t.arity).zip t.children).allM
        (fun q => below.accepts root? q.2 q.1)
      = t.children.zipIdx.allM fun q => below.accepts root? q.1 (patternAt leading rest q.2) := by
    rw [hpairs]
    exact Verdict.allM_map _ _ _
  rw [acceptsStep, acceptsStep, hlength, hall, beq_self_eq_true, Bool.and_true, hnode,
    Bool.false_or]
  cases htag : tagAccepts tag? t with
  | false => rfl
  | true => rw [if_neg (by simp [hcount]), if_pos rfl]

/-- Leaves and nodes with too few children are rejected. -/
theorem acceptsStep_vararg_eq_false (h : t.isTerminal = true ∨ t.arity < leading.length) :
    acceptsStep below root? t (.vararg tag? leading rest) = pure false := by
  rw [acceptsStep, if_pos]
  rcases h with hterminal | hcount
  · rw [hterminal]
    rfl
  · rw [decide_eq_true hcount, Bool.or_true]

/-- Running, one step after the matcher. -/
theorem transformStep_vararg (lib : Library m) {s : Site} (hcount : leading.length ≤ s.node.arity)
    (haccepts : below.accepts s.root? s.node (.vararg tag? leading rest)
      = below.accepts s.root? s.node (.node tag? (spread leading rest s.node.arity))) :
    transformStep below lib s (.vararg tag? leading rest)
      = transformStep below lib s (.node tag? (spread leading rest s.node.arity)) := by
  rw [transformStep, transformStep, ensure, ensure, haccepts, Tree.arity, zip_spread hcount]

end Level

namespace Engine

open Grammar (spread)

variable {m : Type → Type} [Monad m] [MonadExcept Error m] (e : Engine m)

/-- A pattern of any number of children matches as one of so many does. -/
theorem accepts_vararg {n : Nat} {root? : Option Grammar} {t : Tree} {tag? : Option Tag}
    {leading : List Grammar} {rest : Grammar} (hnode : t.isTerminal = false)
    (hcount : leading.length ≤ t.arity) :
    (e.level n).accepts root? t (.vararg tag? leading rest)
      = (e.level n).accepts root? t (.node tag? (spread leading rest t.arity)) := by
  cases n with
  | zero => rfl
  | succ n => exact Level.acceptsStep_vararg hnode hcount

/-- It also computes what that one does. -/
theorem transform_vararg {n : Nat} {s : Site} {tag? : Option Tag} {leading : List Grammar}
    {rest : Grammar} (hnode : s.node.isTerminal = false) (hcount : leading.length ≤ s.node.arity) :
    (e.level n).transform s (.vararg tag? leading rest)
      = (e.level n).transform s (.node tag? (spread leading rest s.node.arity)) := by
  cases n with
  | zero => rfl
  | succ n => exact Level.transformStep_vararg e.library hcount (e.accepts_vararg hnode hcount)

/-- Where a vararg accepts nothing, running it fails as soon as the matcher has answered. -/
theorem transform_vararg_eq_throw [LawfulMonad m]
    (hthrow : ∀ {α β : Type} (err : Error) (k : α → m β), (throw err : m α) >>= k = throw err)
    {n : Nat} {s : Site} {tag? : Option Tag} {leading : List Grammar} {rest : Grammar}
    (h : s.node.isTerminal = true ∨ s.node.arity < leading.length) :
    (e.level n).transform s (.vararg tag? leading rest)
      = if 1 < n then throw (Level.noMatch s.node)
        else throw (.depthExceeded e.config.maxDepth) := by
  match n with
  | 0 => rfl
  | 1 =>
      show (throw (Error.depthExceeded e.config.maxDepth) >>= _) >>= _ = _
      rw [hthrow, hthrow]
      rfl
  | n + 2 =>
      have hensure : Level.ensure (e.level (n + 1)) s (.vararg tag? leading rest)
          = throw (Level.noMatch s.node) := by
        show Level.acceptsStep _ s.root? s.node (.vararg tag? leading rest) >>= _ = _
        rw [Level.acceptsStep_vararg_eq_false h, pure_bind]
        rfl
      show Level.ensure (e.level (n + 1)) s (.vararg tag? leading rest) >>= _ = _
      rw [hensure, hthrow, if_pos (by omega)]

/-- On a node with enough children a vararg is matched and run as the pattern that repeats its
rest for them, and elsewhere it is rejected, at every depth. -/
theorem vararg_family [LawfulMonad m]
    (hthrow : ∀ {α β : Type} (err : Error) (k : α → m β), (throw err : m α) >>= k = throw err)
    (depth : Nat) (s : Site) (tag? : Option Tag) (leading : List Grammar) (rest : Grammar) :
    (s.node.isTerminal = false → leading.length ≤ s.node.arity →
      (e.atDepth depth).accepts s.root? s.node (.vararg tag? leading rest)
          = (e.atDepth depth).accepts s.root? s.node
            (.node tag? (spread leading rest s.node.arity))
        ∧ (e.atDepth depth).transform s (.vararg tag? leading rest)
          = (e.atDepth depth).transform s (.node tag? (spread leading rest s.node.arity)))
      ∧ (s.node.isTerminal = true ∨ s.node.arity < leading.length →
        (e.atDepth depth).accepts s.root? s.node (.vararg tag? leading rest)
            = (if depth < e.config.maxDepth then pure false
              else throw (.depthExceeded e.config.maxDepth))
          ∧ (e.atDepth depth).transform s (.vararg tag? leading rest)
            = if depth + 1 < e.config.maxDepth then throw (Level.noMatch s.node)
              else throw (.depthExceeded e.config.maxDepth)) := by
  refine ⟨fun hnode hcount => ⟨e.accepts_vararg hnode hcount, e.transform_vararg hnode hcount⟩,
    fun h => ⟨?accepts, ?transform⟩⟩
  case accepts =>
    split
    · next hdepth =>
        obtain ⟨n, hn⟩ := Nat.exists_eq_succ_of_ne_zero (Nat.sub_ne_zero_of_lt hdepth)
        rw [atDepth, hn]
        exact Level.acceptsStep_vararg_eq_false h
    · next hdepth =>
        rw [atDepth, Nat.sub_eq_zero_of_le (Nat.le_of_not_lt hdepth)]
        rfl
  case transform =>
    rw [atDepth, e.transform_vararg_eq_throw hthrow h]
    have hsteps : 1 < e.config.maxDepth - depth ↔ depth + 1 < e.config.maxDepth := by omega
    simp only [hsteps]

/-- A sum of two is one of the family of a literal and more, and a leaf is none of that of any. -/
theorem vararg_family_sum :
    (under (.constant .unit) .pattern 3).accepts
        (.node (.builtin .plus) [.leaf (.int 1), .leaf (.int 2)])
        (.vararg none [.literal (.int 1)] .wildcard) = .ok true
      ∧ (under (.constant .unit) .pattern 3).accepts (.leaf (.int 1)) (.vararg none [] .wildcard)
        = .ok false := by
  have hthrow {α β : Type} (err : Error) (k : α → Outcome β) :
      (throw err : Outcome α) >>= k = throw err := rfl
  refine ⟨?_, ?_⟩
  · obtain ⟨hsame, -⟩ := (vararg_family (under (.constant .unit) .pattern 3) hthrow 0
      ⟨some (.vararg none [.literal (.int 1)] .wildcard),
        .node (.builtin .plus) [.leaf (.int 1), .leaf (.int 2)], .unit, .unit⟩
      none [.literal (.int 1)] .wildcard).1 rfl (by decide)
    exact hsame
  · exact ((vararg_family (under (.constant .unit) .pattern 3) hthrow 0
      ⟨some (.vararg none [] .wildcard), .leaf (.int 1), .unit, .unit⟩
      none [] .wildcard).2 (.inl rfl)).1

end Engine

end TreeGrammar
