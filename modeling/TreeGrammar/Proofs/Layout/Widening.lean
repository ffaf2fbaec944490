import Mathlib.Data.List.Forall2
import TreeGrammar.Print
import TreeGrammar.Proofs.Layout.Rule

/-! # Widening — a larger width only takes breaks away

    The same pieces in the same order are printed in every width, but for the breaks that
    stand where others have a space.  By the rule of layout a list that fits still fits
    in a larger width, and one that is opened stays at its column; so a larger width has
    breaks in fewer places, and in no other ones.  What holds of all places holds of those
    that a part takes up, which are the same in every width. -/

namespace TreeGrammar.Layout

namespace Piece

/-- The piece with a space for a break. -/
def joined : Piece → Piece
  | newline _ => space
  | p => p

/-- Whether the piece is a break. -/
def isBreak : Piece → Bool
  | newline _ => true
  | _ => false

/-- The number of breaks among pieces. -/
def breaks (ps : List Piece) : Nat :=
  ps.countP isBreak

/-- The second piece is the first one, or a break where that is a space. -/
inductive Loosened : Piece → Piece → Prop where
  | same (p : Piece) : Loosened p p
  | opened (indent : Nat) : Loosened space (newline indent)

variable {ps qs : List Piece}

/-- Every output is a loosening of itself. -/
theorem forall₂_loosened_refl (ps : List Piece) : List.Forall₂ Loosened ps ps :=
  List.forall₂_same.mpr fun p _ => .same p

/-- Joined pieces are the same however loose they were. -/
theorem map_joined_eq (h : List.Forall₂ Loosened ps qs) : qs.map joined = ps.map joined := by
  induction h with
  | nil => rfl
  | cons hpiece _ ih =>
      rw [List.map_cons, List.map_cons, ih]
      cases hpiece <;> rfl

/-- Loosening only adds breaks. -/
theorem breaks_le (h : List.Forall₂ Loosened ps qs) : breaks ps ≤ breaks qs := by
  induction h with
  | nil => exact Nat.le_refl 0
  | cons hpiece _ ih =>
      rw [breaks, breaks, List.countP_cons, List.countP_cons]
      refine Nat.add_le_add ih ?_
      cases hpiece with
      | same p => exact Nat.le_refl _
      | opened indent => exact Nat.zero_le _

/-- What is not looser than pieces without a break has none either. -/
theorem eq_of_joined (h : List.Forall₂ Loosened ps qs) (hqs : qs.map joined = qs) : ps = qs := by
  induction h with
  | nil => rfl
  | cons hpiece _ ih =>
      obtain ⟨hhead, htail⟩ := List.cons.inj hqs
      rw [ih htail]
      cases hpiece with
      | same p => rfl
      | opened indent => cases hhead

end Piece

open Piece (Loosened breaks)

namespace Form

mutual
/-- A form on one line has no breaks to join. -/
theorem joined_flat (f : Form) (depth : Nat) :
    (f.flat depth).map Piece.joined = f.flat depth := by
  match f with
  | .atom a => rfl
  | .list head items =>
      rw [flat, List.map_cons, List.map_cons, List.map_append, joined_flatItems items]
      rfl
/-- Nor are there breaks between the items of a flat list. -/
theorem joined_flatItems (items : List Form) (depth : Nat) :
    (flatItems items depth).map Piece.joined = flatItems items depth := by
  match items with
  | [] => rfl
  | item :: items =>
      rw [flatItems, List.map_cons, List.map_append, joined_flat item, joined_flatItems items]
      rfl
end

mutual
/-- A broken form is its flat one, loosened. -/
theorem loosened_flat (width : Nat) (f : Form) (depth column closers : Nat) :
    List.Forall₂ Loosened (f.flat depth) (f.broken width depth column closers) := by
  match f with
  | .atom a => exact Piece.forall₂_loosened_refl _
  | .list head items =>
      rw [broken]
      split
      · exact Piece.forall₂_loosened_refl _
      · refine .cons (.same _) (.cons (.same _) (List.rel_append ?_ ?_))
        · exact loosened_flatItems width items _ _ _
        · exact Piece.forall₂_loosened_refl _
/-- A broken list loosens the flat one. -/
theorem loosened_flatItems (width : Nat) (items : List Form) (depth column closers : Nat) :
    List.Forall₂ Loosened (flatItems items depth)
      (brokenItems width items depth column closers) := by
  match items with
  | [] => exact .nil
  | item :: items =>
      refine .cons (.opened column) (List.rel_append ?_ ?_)
      · exact loosened_flat width item _ _ _
      · exact loosened_flatItems width items _ _ _
end

mutual
/-- In the smaller width a form is printed as in the larger, loosened. -/
theorem loosened_broken {width width' : Nat} (hwidth : width ≤ width') (f : Form)
    (depth column closers : Nat) :
    List.Forall₂ Loosened (f.broken width' depth column closers)
      (f.broken width depth column closers) := by
  match f with
  | .atom a => exact Piece.forall₂_loosened_refl _
  | .list head items =>
      -- what fits in the larger width is flat there, however it is printed in the smaller
      by_cases hfits : items.isEmpty ∨ column + (list head items).flatWidth + closers ≤ width'
      · rw [broken, if_pos hfits]
        exact loosened_flat width (list head items) depth column closers
      · have hsmaller :
            ¬ (items.isEmpty ∨ column + (list head items).flatWidth + closers ≤ width) :=
          fun h => hfits (h.imp_right fun hle => Nat.le_trans hle hwidth)
        rw [broken, if_neg hfits, broken, if_neg hsmaller]
        refine .cons (.same _) (.cons (.same _) (List.rel_append ?_ ?_))
        · exact loosened_brokenItems hwidth items _ _ _
        · exact Piece.forall₂_loosened_refl _
/-- Items break at a narrower width wherever they do at a wider one. -/
theorem loosened_brokenItems {width width' : Nat} (hwidth : width ≤ width') (items : List Form)
    (depth column closers : Nat) :
    List.Forall₂ Loosened (brokenItems width' items depth column closers)
      (brokenItems width items depth column closers) := by
  match items with
  | [] => exact .nil
  | item :: items =>
      refine .cons (.same _) (List.rel_append ?_ ?_)
      · exact loosened_broken hwidth item _ _ _
      · exact loosened_brokenItems hwidth items _ _ _
end

/-- The output at a narrower width loosens that at a wider one. -/
theorem loosened_pieces {width width' : Nat} (hwidth : width ≤ width') (f : Form) :
    List.Forall₂ Loosened (f.pieces width') (f.pieces width) := by
  rw [pieces_eq_broken, pieces_eq_broken]
  exact loosened_broken hwidth f 0 0 0

/-- With its breaks joined a printed form is the flat one. -/
theorem joined_pieces (f : Form) (width : Nat) : (f.pieces width).map Piece.joined = f.flat 0 := by
  rw [pieces_eq_broken, Piece.map_joined_eq (loosened_flat width f 0 0 0), joined_flat]

/-! ## Parts -/

/-- A part of a form that stands in `depth` lists: how many pieces come before it, and in how many
lists it stands itself. -/
inductive Part : Form → (depth start : Nat) → Form → (inner : Nat) → Prop where
  | self {f : Form} {depth : Nat} : Part f depth 0 f depth
  | item {head : Atom} {before after : List Form} {item part : Form} {depth start inner : Nat} :
      Part item (depth + 1) start part inner →
      -- the parenthesis, the head, what stands in front and the gap
      Part (.list head (before ++ item :: after)) depth
        ((flatItems before (depth + 1)).length + 3 + start) part inner

/-- The pieces of a printed form from one on. -/
def segment (f : Form) (width start count : Nat) : List Piece :=
  ((f.pieces width).drop start).take count

/-- The part that so many pieces come before is printed on one line. -/
def FlatAt (f : Form) (width start : Nat) (part : Form) (inner : Nat) : Prop :=
  f.segment width start (part.flat inner).length = part.flat inner

theorem flatItems_append (items items' : List Form) (depth : Nat) :
    flatItems (items ++ items') depth = flatItems items depth ++ flatItems items' depth := by
  induction items with
  | nil => rfl
  | cons item items ih =>
      rw [List.cons_append, flatItems, flatItems, ih, List.cons_append, List.append_assoc]

/-- On one line the pieces of a part stand in one place. -/
theorem Part.exists_append {f part : Form} {depth start inner : Nat}
    (h : f.Part depth start part inner) :
    ∃ before after, f.flat depth = before ++ (part.flat inner ++ after)
      ∧ before.length = start := by
  induction h with
  | self => exact ⟨[], [], (List.append_nil _).symm, rfl⟩
  | @item head front back item part depth start inner _ ih =>
      obtain ⟨before, after, hflat, hlength⟩ := ih
      refine ⟨.text (parenStyle depth) "(" :: .text head.style head.text ::
          (flatItems front (depth + 1) ++ .space :: before),
        after ++ (flatItems back (depth + 1) ++ [.text (parenStyle depth) ")"]), ?_, ?_⟩
      · rw [flat, flatItems_append, flatItems, hflat]
        simp only [List.append_assoc, List.cons_append]
      · simp only [List.length_cons, List.length_append, hlength]
        omega

/-- Whatever the width, the pieces in the place of a part are the part's. -/
theorem Part.joined_segment {f part : Form} {start inner : Nat} (h : f.Part 0 start part inner)
    (width : Nat) :
    (f.segment width start (part.flat inner).length).map Piece.joined = part.flat inner := by
  obtain ⟨before, after, hflat, hlength⟩ := h.exists_append
  rw [segment, List.map_take, List.map_drop, joined_pieces, hflat, List.drop_left' hlength,
    List.take_left]

/-- A part that is flat in some width is so in every larger one. -/
theorem FlatAt.mono {f part : Form} {start inner width width' : Nat} (hwidth : width ≤ width')
    (h : f.FlatAt width start part inner) : f.FlatAt width' start part inner := by
  have hloosened : List.Forall₂ Loosened
      (f.segment width' start (part.flat inner).length)
      (f.segment width start (part.flat inner).length) :=
    List.forall₂_take _ (List.forall₂_drop _ (loosened_pieces hwidth f))
  rw [FlatAt] at h
  rw [h] at hloosened
  exact Piece.eq_of_joined hloosened (joined_flat part inner)

/-! ## Printed forms -/

/-- How a form is printed in all widths. -/
structure LaidOut (f : Form) : Prop where
  /-- The text is that of the rule, for a form at the first column with nothing behind it. -/
  rule : ∀ width, f.text width = Piece.plain (f.broken width 0 0 0)
  /-- With a space for every break the text is the flat one. -/
  joined : ∀ width, (f.pieces width).map Piece.joined = f.flat 0
  /-- The same holds of each part in its own place. -/
  part : ∀ {start part inner}, f.Part 0 start part inner → ∀ width,
    (f.segment width start (part.flat inner).length).map Piece.joined = part.flat inner
  /-- A part that is flat stays flat in larger widths. -/
  flat : ∀ {start part inner}, f.Part 0 start part inner → ∀ width width', width ≤ width' →
    f.FlatAt width start part inner → f.FlatAt width' start part inner
  /-- In larger widths there are no more breaks. -/
  breaks : ∀ width width', width ≤ width' → breaks (f.pieces width') ≤ breaks (f.pieces width)

/-- Every form is laid out as the rule says. -/
theorem laidOut (f : Form) : f.LaidOut where
  rule := fun width => congrArg Piece.plain (f.pieces_eq_broken width)
  joined := f.joined_pieces
  part := fun h => h.joined_segment
  flat := fun _ _ _ hwidth h => h.mono hwidth
  breaks := fun _ _ hwidth => Piece.breaks_le (loosened_pieces hwidth f)

end Form

end TreeGrammar.Layout

namespace TreeGrammar.Print

open Layout (Form Piece)

/-- Trees, grammars and actions are printed by one rule in every width: their texts are the same
but for the breaks, and a larger width opens no list that was flat and has no more breaks. -/
theorem laidOut_print (t : Tree) (g : Grammar) (a : Action) :
    (tree t).LaidOut ∧ (grammar g).LaidOut ∧ (action a).LaidOut :=
  ⟨(tree t).laidOut, (grammar g).laidOut, (action a).laidOut⟩

/-- A list in a list of thirteen columns: in nine the outer one is opened and the inner one is flat,
and so it is in thirteen. -/
theorem laidOut_print_nested :
    ∃ f part : Form,
      f = tree (.node (.user "f") [.node (.user "g") [.leaf (.int 1), .leaf (.int 2)],
        .leaf (.int 3)])
      ∧ part = tree (.node (.user "g") [.leaf (.int 1), .leaf (.int 2)])
      ∧ f.Part 0 3 part 1
      ∧ Piece.plain (f.broken 9 0 0 0) = "(f\n  (g 1 2)\n  3)"
      ∧ f.FlatAt 9 3 part 1 ∧ f.FlatAt 13 3 part 1 := by
  obtain ⟨h, -, -⟩ := laidOut_print
    (.node (.user "f") [.node (.user "g") [.leaf (.int 1), .leaf (.int 2)], .leaf (.int 3)])
    .wildcard .value
  refine ⟨_, _, rfl, rfl, @Form.Part.item _ [] _ _ _ _ _ _ .self, rfl, rfl, ?_⟩
  exact h.flat (@Form.Part.item _ [] _ _ _ _ _ _ .self) 9 13 (by decide) rfl

end TreeGrammar.Print
