import Mathlib.Logic.Relation
import TemplateFolding.Proofs.TrackedFoldings

/-!
# Applying notifications

Whatever a notification says, applying it does one of three things: nothing, a change to one folding
and its label, or the removal of one folding. `Step` is this relation, and what is kept by every step
is kept by `process`.
-/

namespace TemplateFolding

open Relation

namespace FoldedEditor

variable {s s' : FoldedEditor} {drained rest : List MarkerChange} {id : FoldingId} {f : Folding}

/-- What applying one notification can do. -/
inductive Step (s : FoldedEditor) : FoldedEditor → Prop where
  | idle : Step s s
  | relabel {id : FoldingId} {f f' : Folding} {e : Editor} {h : Highlighter} :
      s.live.get? id = some f → s.owners.get? f.marker = some id → f'.marker = f.marker →
      f'.folds = f.folds → f'.label.text = f.label.text → f'.initialScreen = f.initialScreen →
      s.editor.Redraws e f.marker →
      Step s { s with editor := e, live := s.live.insert id f', highlighter := h }
  | destroy {id : FoldingId} {f : Folding} :
      s.live.get? id = some f → s.owners.get? f.marker = some id →
      s.editor.Redraws (f.label.destroy s.editor) f.marker → Step s (s.destroyFolding id)

/-- Taking a folding down that is there is a step. -/
lemma Tracked.step_destroyFolding (h : s.Tracked drained) (hf : s.live.get? id = some f) :
    s.Step (s.destroyFolding id) := by
  obtain ⟨known, hfol⟩ := h.follows id f hf
  have hredraw : s.editor.Redraws (f.label.destroy s.editor) f.label.marker :=
    Label.redraws_hide hfol.drawn
  exact .destroy hf (h.owner hf) (hfol.label ▸ hredraw)

/-- Following a notification is a step, whatever the marker has gone through. -/
lemma Tracked.step_onMarkerChange (h : s.Tracked drained) (c : MarkerChange) :
    s.Step (s.onMarkerChange c) := by
  refine onMarkerChange_elim s c ?_ ?_ ?_ ?_ ?_
  · exact fun _ => .idle
  · intro id f hc
    exact .relabel hc.live (h.owner hc.live) rfl rfl rfl rfl (Editor.Redraws.refl _ _)
  · intro id f hc
    obtain ⟨known, hfol⟩ := h.follows id f hc.live
    have hredraw := f.label.redraws_draw h.tidy.toKept
    exact .relabel hc.live (h.owner hc.live) rfl rfl (Label.text_draw _ _) rfl
      (hfol.label ▸ hredraw)
  · intro id f hc
    obtain ⟨known, hfol⟩ := h.follows id f hc.live
    have hredraw := Label.redraws_setStyle_hide hfol.drawn .normal
    exact .relabel hc.live (h.owner hc.live) rfl rfl (Label.text_hide _ _) rfl
      (hfol.label ▸ hredraw)
  · exact fun id f _ hc _ => h.step_destroyFolding hc.live

/-- Highlighting a folding, or not any more, is a step. -/
lemma Tracked.step_setHighlight (h : s.Tracked drained) (id : FoldingId) (on : Bool) :
    s.Step (s.setHighlight id on) := by
  refine setHighlight_elim s id on (fun _ => .idle) fun f hf _ => ?_
  obtain ⟨known, hfol⟩ := h.follows id f hf
  have hredraw := Label.redraws_setStyle hfol.drawn (if on then .underCursor else .normal)
  exact .relabel hf (h.owner hf) rfl rfl rfl rfl (hfol.label ▸ hredraw)

/-! ## Rounds as steps -/

/-- Following all notifications of a queue is a run of steps. -/
lemma Tracked.steps_onMarkerChanges (h : s.Tracked drained)
    (hd : drained.Pairwise fun c d => c.marker ≠ d.marker) :
    ReflTransGen Step s (drained.foldl FoldedEditor.onMarkerChange s) := by
  induction drained generalizing s with
  | nil => exact .refl
  | cons c rest ih =>
    exact .head (h.step_onMarkerChange c) (ih (h.onMarkerChange hd) (List.pairwise_cons.1 hd).2)

/-- Following a move of the cursor is a run of steps, one for each folding that is examined. -/
lemma Tracked.steps_onCursorMove (h : s.Tracked []) (m : CursorMove) :
    ReflTransGen Step s (s.onCursorMove m) := by
  unfold FoldedEditor.onCursorMove
  generalize s.highlighter.onCursorMove m s.rangeOf? = changes
  induction changes generalizing s with
  | nil => exact .refl
  | cons c changes ih =>
    cases c with
    | add id => exact .head (h.step_setHighlight id true) (ih (h.setHighlight id true))
    | remove id => exact .head (h.step_setHighlight id false) (ih (h.setHighlight id false))

lemma Tracked.steps_onCursorMoves (h : s.Tracked []) (moves : List CursorMove) :
    ReflTransGen Step s (moves.foldl FoldedEditor.onCursorMove s) := by
  induction moves generalizing s with
  | nil => exact .refl
  | cons m moves ih => exact (h.steps_onCursorMove m).trans (ih (h.onCursorMove m))

/-- A round is a run of steps from the drained state. -/
theorem Tracked.steps_processRound (h : s.Tracked []) :
    ReflTransGen Step s.emptied s.processRound :=
  have hchanges := h.drain.onMarkerChanges h.tidy.distinct
  (h.drain.steps_onMarkerChanges h.tidy.distinct).trans
    (hchanges.steps_onCursorMoves s.editor.cursorMoves)

/-- What draining and every step keep is kept by `process`. -/
theorem Tracked.process_induction {P : FoldedEditor → Prop} (h : s.Tracked []) (hs : P s)
    (hempty : ∀ t, P t → P t.emptied) (hstep : ∀ t t', Step t t' → P t → P t') : P s.process := by
  unfold FoldedEditor.process
  generalize s.live.size + 1 = rounds
  induction rounds generalizing s with
  | zero => exact hs
  | succ rounds ih =>
    unfold FoldedEditor.processRounds
    split
    · apply ih h.processRound
      -- the queues are emptied first, then the round is a run of steps
      have hsteps := h.steps_processRound
      generalize s.processRound = t at hsteps
      induction hsteps with
      | refl => exact hempty s hs
      | tail _ hlast hrun => exact hstep _ _ hlast hrun
    · exact hs

/-! ## What processing leaves alone -/

/-- Between two states no folding has appeared, and what belongs to none is as it was. -/
structure Frame (s s' : FoldedEditor) : Prop where
  fresh : ∀ id, s.live.get? id = none → s'.live.get? id = none
  owners : ∀ k, s.owners.get? k = none → s'.owners.get? k = none
  markers : ∀ k, s.owners.get? k = none → s'.editor.markers.get? k = s.editor.markers.get? k
  decorations : ∀ k, s.owners.get? k = none → ∀ d x, x.marker = k →
    (s'.editor.decorations.get? d = some x ↔ s.editor.decorations.get? d = some x)

lemma markers_destroyFolds (p : PartialFold) (e : Editor) : (p.destroy e).markers = e.markers := by
  unfold PartialFold.destroy
  generalize p.folds = ids
  induction ids generalizing e with
  | nil => rfl
  | cons id ids ih =>
    rw [List.foldl_cons, ih, Editor.destroyFold]
    split <;> rfl

lemma ne_of_owners {k marker : MarkerId} {id : FoldingId} (hk : s.owners.get? k = none)
    (howner : s.owners.get? marker = some id) : k ≠ marker := by
  intro heq
  rw [heq, howner] at hk
  exact absurd hk (by simp)

/-- A step brings no folding up and leaves alone what belongs to none. -/
lemma Step.frame (h : Step s s') : s.Frame s' := by
  cases h with
  | idle => exact ⟨fun _ h => h, fun _ h => h, fun _ _ => rfl, fun _ _ _ _ _ => Iff.rfl⟩
  | @relabel id f f' e h hf howner _ _ _ _ hredraw =>
    refine ⟨?_, fun _ h => h, fun k _ => by rw [hredraw.markers], ?_⟩
    · intro j hj
      have hji : j ≠ id := by
        rintro rfl
        rw [hf] at hj
        exact absurd hj (by simp)
      exact (Table.get?_insert_of_ne _ _ hji).trans hj
    · intro k hk d x hx
      exact hredraw.others d x (hx ▸ ne_of_owners hk howner)
  | @destroy id f hf howner hredraw =>
    unfold FoldedEditor.destroyFolding
    rw [hf]
    refine ⟨?_, ?_, ?_, ?_⟩
    · intro j hj
      rw [Table.get?_erase, hj, ite_self]
    · intro k hk
      rw [Table.get?_erase, hk, ite_self]
    · intro k hk
      refine (Table.get?_erase_of_ne _ (ne_of_owners hk howner)).trans ?_
      rw [markers_destroyFolds, hredraw.markers]
    · intro k hk d x hx
      have hspare := (Editor.spares_destroyMarker (f.folds.destroy (f.label.destroy s.editor))
        (ne_of_owners hk howner)).decorations d x hx
      rw [hspare, (spares_destroyFolds f.folds _ k).decorations d x hx,
        hredraw.others d x (hx ▸ ne_of_owners hk howner)]

lemma Frame.trans {s'' : FoldedEditor} (h : s.Frame s') (h' : s'.Frame s'') : s.Frame s'' where
  fresh := fun id hid => h'.fresh id (h.fresh id hid)
  owners := fun k hk => h'.owners k (h.owners k hk)
  markers := fun k hk => (h'.markers k (h.owners k hk)).trans (h.markers k hk)
  decorations := fun k hk d x hx =>
    (h'.decorations k (h.owners k hk) d x hx).trans (h.decorations k hk d x hx)

/-- Processing brings no folding up and leaves alone what belongs to none. -/
theorem Tracked.frame_process (h : s.Tracked []) : s.Frame s.process := by
  refine h.process_induction ?_ ?_ ?_
  · exact ⟨fun _ h => h, fun _ h => h, fun _ _ => rfl, fun _ _ _ _ _ => Iff.rfl⟩
  · intro t ht
    exact ⟨ht.fresh, ht.owners, ht.markers, ht.decorations⟩
  · intro t t' hstep ht
    exact ht.trans hstep.frame

end FoldedEditor

end TemplateFolding
