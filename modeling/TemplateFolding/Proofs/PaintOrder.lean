import Mathlib.Data.List.Pairwise
import Mathlib.Data.List.Perm.Basic
import TemplateFolding.Editor.Overlay

/-!
# The order in which overlays are drawn

Overlays are drawn one over the other, so in general their order can be seen. Two overlays that have
no place of the screen in common can be drawn in either order, also where they fill up a line that
is too short.

What is drawn follows from the texts of the decorations and the ranges of their markers. Which
numbers the markers have is no matter.
-/

namespace TemplateFolding

namespace Text

variable {row cover cover' : Text} {column column' : Nat}

/-- A line is filled up as far as something is written, and otherwise stays as it is. -/
lemma getElem?_overwrite (hcover : cover ≠ []) (i : Nat) :
    (row.overwrite column cover)[i]? =
      if i < column then some (row[i]?.getD ' ')
      else if i < column + cover.length then cover[i - column]? else row[i]? := by
  unfold overwrite
  rw [if_neg (by simpa using hcover)]
  have hfilled :
      (row.take column ++ List.replicate (column - row.length) ' ').length = column := by
    rw [List.length_append, List.length_take, List.length_replicate]
    omega
  rw [List.append_assoc, List.getElem?_append, hfilled]
  split_ifs with hfront hcovered
  · rw [List.getElem?_append, List.length_take]
    split_ifs with hline
    · rw [List.getElem?_take_of_lt hfront, List.getElem?_eq_getElem (by omega), Option.getD_some]
    · have hshort : row[i]? = none := List.getElem?_eq_none (by omega)
      rw [hshort, List.getElem?_replicate_of_lt (by omega), Option.getD_none]
  · rw [List.getElem?_append_left (by omega)]
  · rw [List.getElem?_append_right (by omega), List.getElem?_drop]
    congr 1
    omega

/-- Texts that are written next to each other can be written in either order. -/
lemma overwrite_comm (h : column + cover.length ≤ column') :
    (row.overwrite column cover).overwrite column' cover' =
      (row.overwrite column' cover').overwrite column cover := by
  rcases eq_or_ne cover [] with rfl | hcover
  · rfl
  rcases eq_or_ne cover' [] with rfl | hcover'
  · rfl
  refine List.ext_getElem? fun i => ?_
  simp only [getElem?_overwrite hcover, getElem?_overwrite hcover']
  by_cases hbefore : i < column'
  · rw [if_pos hbefore, if_pos hbefore]
    split_ifs with hfront hinside
    · rfl
    · rw [List.getElem?_eq_getElem (by omega), Option.getD_some]
    · rfl
  · have hfront : ¬i < column := by omega
    have hinside : ¬i < column + cover.length := by omega
    simp only [if_neg hbefore, if_neg hfront, if_neg hinside]

end Text

/-! ## Drawings -/

/-- A text to be drawn at the start of a range, if it has one. -/
structure Drawing where
  text : Text
  range : Option Range
deriving DecidableEq

/-- Draws a text, where the buffer is `t` and the folds are as given. -/
def Drawing.draw (t : Text) (folds : List Range) (lines : List Text) (d : Drawing) : List Text :=
  match d.range with
  | none => lines
  | some r =>
    lines.modify (screenPoint t folds r.start).row fun line =>
      line.overwrite (screenPoint t folds r.start).column d.text

/-- What the decorations ask to be drawn, in their order. -/
def Editor.drawings (e : Editor) : List Drawing :=
  e.decorations.values.map fun d => ⟨d.overlay.text, e.markerRange? d.marker⟩

/-- What is displayed follows from the buffer, the folds and what is to be drawn. -/
lemma Editor.paintedLines_eq_foldl (e : Editor) :
    e.paintedLines = e.drawings.foldl (Drawing.draw e.text e.folds.values) e.screenLines := by
  unfold paintedLines overlays drawings
  rw [List.foldl_filterMap, List.foldl_map]
  congr 1
  funext lines d
  unfold overlayOf? Drawing.draw markerRange?
  cases e.markers.get? d.marker <;> rfl

namespace Drawing

variable {t : Text} {folds : List Range}

/-- It does not matter which of two texts is drawn first. -/
def Swaps (t : Text) (folds : List Range) (x y : Drawing) : Prop :=
  ∀ lines, draw t folds (draw t folds lines x) y = draw t folds (draw t folds lines y) x

instance : Std.Symm (Swaps t folds) where
  symm _ _ h lines := (h lines).symm

/-- Texts on different rows, or one after the other on one row, can be drawn in either order. -/
lemma swaps_of_apart {x y : Text} {r s : Range}
    (h : (screenPoint t folds r.start).row ≠ (screenPoint t folds s.start).row ∨
      (screenPoint t folds r.start).column + x.length ≤ (screenPoint t folds s.start).column) :
    Swaps t folds ⟨x, some r⟩ ⟨y, some s⟩ := by
  intro lines
  unfold draw
  dsimp only
  by_cases hrow : (screenPoint t folds r.start).row = (screenPoint t folds s.start).row
  · have hcolumn := h.resolve_left (not_not.2 hrow)
    rw [hrow, List.modify_modify_eq, List.modify_modify_eq]
    congr 1
    funext line
    exact Text.overwrite_comm hcolumn
  · exact List.modify_modify_ne _ _ _ hrow

/-- Texts of which each can be swapped with every other can be drawn in any order. -/
lemma foldl_draw_perm {l l' : List Drawing} (hperm : l'.Perm l) (h : l.Pairwise (Swaps t folds))
    (lines : List Text) : l'.foldl (draw t folds) lines = l.foldl (draw t folds) lines := by
  have hswaps := h.forall_of_forall fun _ _ _ => rfl
  exact (hperm.symm.foldl_eq' (fun x hx y hy => hswaps hx hy) lines).symm

end Drawing

end TemplateFolding
