import Mathlib.Data.List.Zip
import TreeGrammar.Proofs.Engine.Copying
import TreeGrammar.Proofs.Engine.MatchAndRun
import TreeGrammar.Proofs.Engine.Meaning
import TreeGrammar.Proofs.Engine.Recursion
import TreeGrammar.Proofs.Tree.WellFormed

/-! # Identity — patterns without bodies give the node back

    A pattern is run as an action in many ways: some leave the node as it is, some pass
    it on to a part, some take it apart and run parts on its children.  Where no case
    has a body, none of them computes anything else than the node itself.  What the
    matcher accepts can be run with one more step, for running asks the matcher again
    one step deeper.  Building a node anew gives it back as well. -/

namespace TreeGrammar

open Outcome (CutAt congruence_cutAt)

/-- No case of the grammar or of its parts has a body; conditions can be any actions. -/
def Grammar.isBodiless (g : Grammar) : Bool :=
  g.everyPart fun
    | .switch cases => cases.all (·.body.isEmpty)
    | _ => true

namespace Grammar

variable {g g' : Grammar} (hg : g.isBodiless = true)

include hg

/-- What is asked about the same tree has no bodies either. -/
theorem isBodiless_beside (h : g' ∈ g.beside) : g'.isBodiless = true :=
  (everyPart_iff.mp hg).2.1 g' h

theorem isBodiless_beneath (h : g' ∈ g.beneath) : g'.isBodiless = true :=
  (everyPart_iff.mp hg).2.2 g' h

omit hg in
/-- No case of a grammar without bodies has one. -/
theorem body_eq_nil {cases : List Case} (hg : (Grammar.switch cases).isBodiless = true) {c : Case}
    (hc : c ∈ cases) : c.body = [] := by
  have hbodies : cases.all (·.body.isEmpty) = true := (everyPart_iff.mp hg).1
  exact List.isEmpty_iff.mp (List.all_eq_true.mp hbodies c hc)

end Grammar

namespace Level

/-- Children that are run to themselves make the node again. -/
theorem rebuildBy_eq_self {l : Level Outcome} {s : Site} (hs : s.node.WellFormed)
    {pairs : List (Tree × Grammar)} (hchildren : pairs.map Prod.fst = s.node.children)
    (h : ∀ p ∈ pairs, l.transform { s with node := p.1, state := .node s.node } p.2
      = .ok (.node p.1)) : rebuildBy l s pairs = .ok (.node s.node) := by
  have hrun : pairs.mapM (fun p => do
      Outcome.lift (← l.transform { s with node := p.1, state := .node s.node } p.2).toTree)
      = (.ok (pairs.map Prod.fst) : Outcome (List Tree)) := by
    refine Verdict.mapM_eq_ok fun p hp => ?_
    show l.transform { s with node := p.1, state := .node s.node } p.2 >>= _ = _
    rw [h p hp]
    rfl
  unfold rebuildBy
  cases hterminal : s.node.isTerminal with
  | true => rfl
  | false =>
      rw [if_neg nofun]
      show pairs.mapM (fun p => do
        Outcome.lift (← l.transform { s with node := p.1, state := .node s.node } p.2).toTree)
        >>= _ = _
      rw [hrun, hchildren]
      show (Outcome.lift (Tree.make s.node.tag s.node.children) : Outcome Tree) >>= _ = _
      rw [hs.make_eq hterminal]
      rfl

/-- What the first of two levels accepts, the second runs to the node itself. -/
def Keeps (lo hi : Level Outcome) : Prop :=
  ∀ (s : Site) (g : Grammar), (∀ root ∈ s.root?, root.isBodiless = true) → s.node.WellFormed →
    g.isBodiless = true → lo.accepts s.root? s.node g = .ok true →
      hi.transform s g = .ok (.node s.node)

variable {limit : Nat} {lo hi : Level Outcome} {lib : Library Outcome}

/-- One step, `hi` being the level above `lo`. -/
theorem Keeps.step (h : Keeps lo hi) (hcut : Level.Related (CutAt limit) lo hi) {s : Site}
    {g : Grammar} (hroot : ∀ root ∈ s.root?, root.isBodiless = true) (hs : s.node.WellFormed)
    (hg : g.isBodiless = true) (hhi : hi.accepts s.root? s.node g = .ok true)
    (hlo : acceptsStep lo s.root? s.node g = .ok true) :
    transformStep hi lib s g = .ok (.node s.node) := by
  have hensure {k : Unit → Outcome Value} : ensure hi s g >>= k = k () := by
    rw [ensure_of_accepts hhi]
    rfl
  have hpart : ∀ g' ∈ g.beside, lo.accepts s.root? s.node g' = .ok true →
      hi.transform s g' = .ok (.node s.node) :=
    fun g' hg' => h s g' hroot hs (Grammar.isBodiless_beside hg hg')
  have hchild : ∀ g' ∈ g.beneath, ∀ c ∈ s.node.children, lo.accepts s.root? c g' = .ok true →
      hi.transform { s with node := c, state := .node s.node } g' = .ok (.node c) :=
    fun g' hg' c hc => h { s with node := c, state := .node s.node } g' hroot
      (hs.of_mem_children hc) (Grammar.isBodiless_beneath hg hg')
  cases g with
  | wildcard => exact hensure
  | exact signature => exact hensure
  | terminal kind? => exact hensure
  | literal l => exact hensure
  | except g => exact hensure
  | node tag? gs =>
      rw [acceptsStep] at hlo
      split at hlo
      · next hshape =>
          have hlength : gs.length = s.node.children.length :=
            (beq_iff_eq.mp (Bool.and_eq_true_iff.mp hshape).2).symm
          have hpairs : (s.node.children.zip gs).map Prod.fst = s.node.children :=
            List.map_fst_zip (Nat.le_of_eq hlength.symm)
          refine hensure.trans (rebuildBy_eq_self hs hpairs fun p hp => ?_)
          obtain ⟨hc, hmem⟩ := List.of_mem_zip hp
          have hswap : (p.2, p.1) ∈ gs.zip s.node.children := by
            rw [← List.zip_swap]
            exact List.mem_map_of_mem hp
          exact hchild p.2 hmem p.1 hc (Verdict.of_allM_eq_true hlo (p.2, p.1) hswap)
      · cases hlo
  | vararg tag? leading rest =>
      rw [acceptsStep] at hlo
      split at hlo
      · cases hlo
      · have hpairs : (s.node.children.zipIdx.map fun p =>
            (p.1, patternAt leading rest p.2)).map Prod.fst = s.node.children := by
          rw [List.map_map]
          exact List.zipIdx_map_fst 0 s.node.children
        refine hensure.trans (rebuildBy_eq_self hs hpairs fun p hp => ?_)
        obtain ⟨q, hq, rfl⟩ := List.mem_map.mp hp
        exact hchild _ (patternAt_mem leading rest q.2) q.1 (List.fst_mem_of_mem_zipIdx hq)
          (Verdict.of_allM_eq_true hlo q hq)
  | all gs =>
      have hmembers : ∀ g' ∈ gs, lo.accepts s.root? s.node g' = .ok true :=
        Verdict.of_allM_eq_true hlo
      rw [transformStep, hensure]
      cases hlast : gs.getLast? with
      | none => rfl
      | some last =>
          have hmem : last ∈ gs := List.mem_of_getLast? hlast
          exact hpart last hmem (hmembers last hmem)
  | any gs =>
      obtain ⟨i, found, hfirst, hmem, hfound⟩ := Verdict.exists_first_of_anyM hlo
      have hsame : hi.firstAlternative s.root? s.node gs = .ok (some (i, found)) :=
        (hcut.firstAlternative (congruence_cutAt limit) s.root? s.node gs).eq_ok hfirst
      rw [transformStep, hsame]
      exact hpart found hmem hfound
  | choose c yes no =>
      have hsame {b : Bool} (hb : condition lo s.root? s.node c = .ok b) :
          condition hi s.root? s.node c = .ok b :=
        (hcut.condition (congruence_cutAt limit) s.root? s.node c).eq_ok hb
      rcases Verdict.of_choose hlo with ⟨hc, hyes⟩ | ⟨hc, hno⟩
      · rw [transformStep, hsame hc]
        exact hpart yes (by simp [Grammar.beside]) hyes
      · rw [transformStep, hsame hc]
        exact hpart no (by simp [Grammar.beside]) hno
  | switch cases =>
      obtain ⟨i, found, hfirst, hmem, hfound⟩ := Verdict.exists_first_of_anyM hlo
      have hsame : hi.firstCase s.root? s.node cases = .ok (some (i, found)) :=
        (hcut.firstCase (congruence_cutAt limit) s.root? s.node cases).eq_ok hfirst
      rw [transformStep, hsame]
      show caseStep hi lib s found = _
      rw [caseStep, Grammar.body_eq_nil hg hmem]
      exact hpart found.pattern (List.mem_map_of_mem hmem) hfound
  | recurse =>
      obtain ⟨root?, node, state, data⟩ := s
      cases root? with
      | none => cases hlo
      | some root => exact h _ root hroot hs (hroot root rfl) hlo

end Level

namespace Engine

variable {lib : Library Outcome} {whenDefault : WhenDefault}

/-- What a level accepts, the next one runs to the node itself. -/
theorem keeps_level (limit n : Nat) : Level.Keeps ((under lib whenDefault limit).level n)
    ((under lib whenDefault limit).level (n + 1)) := by
  induction n with
  | zero =>
      intro s g hroot hs hg haccepts
      cases haccepts
  | succ n ih =>
      intro s g hroot hs hg haccepts
      have hcut : Level.Related (CutAt limit) ((under lib whenDefault limit).level n)
          ((under lib whenDefault limit).level (n + 1)) := related_cutAt (Nat.le_succ n)
      exact ih.step hcut hroot hs hg haccepts haccepts

/-- A grammar without bodies that accepts a well-formed node runs to the same node with one more
step, and never runs to anything else; if it is closed, a guard without an action gives the node
back as well, by running the pattern or by building the node anew. -/
theorem bodiless_identity (lib : Library Outcome) (whenDefault : WhenDefault) {g : Grammar}
    (hg : g.isBodiless = true) {t : Tree} (ht : t.WellFormed) (state data : Value) :
    (∀ limit, (under lib whenDefault limit).accepts t g = .ok true →
        (under lib whenDefault (limit + 1)).transform t state data g = .ok (.node t))
      ∧ (∀ limit v, (under lib whenDefault limit).transform t state data g = .ok v → v = .node t)
      ∧ (g.IsClosed → ∀ limit limit', (under lib whenDefault limit).accepts t g = .ok true →
          limit + 2 ≤ limit' → t.depth ≤ limit' →
            (under lib whenDefault limit').apply t state data (.when g none) = .ok (.node t)) := by
  have hkept {limit : Nat} (haccepts : (under lib whenDefault limit).accepts t g = .ok true) :
      (under lib whenDefault (limit + 1)).transform t state data g = .ok (.node t) := by
    refine keeps_level (limit + 1) limit ⟨some g, t, state, data⟩ g ?_ ht hg ?_
    · simpa using hg
    · exact CutAt.eq_ok ((related_cutAt (Nat.le_refl limit)).accepts (some g) t g) haccepts
  refine ⟨fun limit => hkept, ?_, ?_⟩
  · intro limit v hv
    -- what has a value has been accepted
    have hagree : Agree limit t ((under lib whenDefault limit).accepts t g)
        ((under lib whenDefault limit).transform t state data g) :=
      agrees_level limit ⟨some g, t, state, data⟩ g
    rw [hv] at hagree
    have haccepts := hagree.verdict_eq
    have hdeeper : (under lib whenDefault (limit + 1)).transform t state data g = .ok v :=
      CutAt.eq_ok ((related_cutAt (Nat.le_succ limit)).transform ⟨some g, t, state, data⟩ g) hv
    rw [hkept haccepts] at hdeeper
    exact (Except.ok.inj hdeeper).symm
  · intro hclosed limit limit' haccepts hlimit hdepth
    obtain ⟨n, rfl⟩ : ∃ n, limit' = n + 1 := ⟨limit' - 1, by omega⟩
    have hsteps : limit + 1 ≤ n := Nat.le_of_succ_le_succ hlimit
    have hlexical : ((under lib whenDefault (n + 1)).level n).Lexical := lexical_level _ n
    -- nothing encloses the guard, but then the grammar may as well enclose itself
    have hguard : ((under lib whenDefault (n + 1)).level n).accepts none t g = .ok true := by
      rw [accepts_congr_root hlexical hclosed none (some g) t]
      exact CutAt.eq_ok ((related_cutAt (Nat.le_of_succ_le hsteps)).accepts (some g) t g) haccepts
    have hrun : ((under lib whenDefault (n + 1)).level n).transform ⟨none, t, state, data⟩ g
        = .ok (.node t) := by
      rw [transform_congr_root hlexical hclosed none (some g) t state data]
      exact CutAt.eq_ok ((related_cutAt hsteps).transform ⟨some g, t, state, data⟩ g)
        (hkept haccepts)
    show ((under lib whenDefault (n + 1)).level n).accepts none t g >>= _ = _
    rw [hguard]
    cases whenDefault with
    | pattern => exact hrun
    | passThrough =>
        show (do return Value.node (← Level.copy ((under lib .passThrough (n + 1)).level n) t))
          = (.ok (.node t) : Outcome Value)
        rw [copy_eq_self _ n ht hdepth]
        rfl

/-- Nodes nested to the right, by a grammar that starts again at their last child; and a condition
on a child, under a guard that needs two steps more and under one that builds the node anew. -/
theorem bodiless_identity_nested :
    (under (.constant .unit) .pattern 11).transform
        (.node (.user "f") [.leaf (.int 1), .node (.user "f") [.leaf (.int 2), .leaf .unit]])
        .unit .unit (.switch [⟨.vararg (some (.user "f")) [.terminal none] .recurse, []⟩,
          ⟨.all [.terminal none, .except (.literal (.int 1))], []⟩])
        = .ok (.node
          (.node (.user "f") [.leaf (.int 1), .node (.user "f") [.leaf (.int 2), .leaf .unit]]))
      ∧ (under (.constant (.lit (.bool true))) .pattern 5).apply
          (.node (.user "f") [.leaf (.str "a")]) .unit .unit
          (.when (.node none [.choose (.leaf "any") (.terminal (some .str)) .wildcard]) none)
        = .ok (.node (.node (.user "f") [.leaf (.str "a")]))
      ∧ (under (.constant (.lit (.bool true))) .passThrough 5).apply
          (.node (.user "f") [.leaf (.str "a")]) .unit .unit
          (.when (.node none [.choose (.leaf "any") (.terminal (some .str)) .wildcard]) none)
        = .ok (.node (.node (.user "f") [.leaf (.str "a")])) := by
  refine ⟨?_, ?_, ?_⟩
  · refine (bodiless_identity _ _ ?_ ?_ _ _).1 10 ?_ <;> rfl
  · refine (bodiless_identity _ _ ?_ ?_ _ _).2.2 ?_ 3 5 ?_ (Nat.le_refl 5) ?_ <;> decide
  · refine (bodiless_identity _ _ ?_ ?_ _ _).2.2 ?_ 3 5 ?_ (Nat.le_refl 5) ?_ <;> decide

end Engine

end TreeGrammar
