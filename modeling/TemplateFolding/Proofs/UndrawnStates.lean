import TemplateFolding.Proofs.MirroredFoldings

/-!
# What is drawn has no say

Nothing that is done to an editor or to its foldings looks at the decorations: they are made,
restyled and removed, and only the screen shows them. So two states that differ in their decorations
alone still do so after every operation. A host may hang its decorations on whatever marker number
it likes, on one that has not been handed out too, and the foldings fare as if it had not.

The decorations of the two states can be related too. Decorations are dealt with one by one, by
their numbers and markers, so a state that has more of them than another keeps having more.
-/

namespace TemplateFolding

/-- A relation between tables of decorations that holds still when the same is done to both. -/
structure DrawnAlike where
  holds : Table Decoration → Table Decoration → Prop
  insert : ∀ {t u} d x, holds t u → holds (t.insert d x) (u.insert d x)
  filter : ∀ {t u} keep, holds t u → holds (t.filter keep) (u.filter keep)
  adjust : ∀ {t u} d change, holds t u → holds (t.adjust d change) (u.adjust d change)

namespace DrawnAlike

/-- Whatever is drawn. -/
def any : DrawnAlike where
  holds := fun _ _ => True
  insert := fun _ _ _ => trivial
  filter := fun _ _ => trivial
  adjust := fun _ _ _ => trivial

/-- The first table has all that the second one has. -/
def included : DrawnAlike where
  holds := fun t u => t.Includes u
  insert := by
    intro t u d x h k v hk
    rw [Table.get?_insert] at hk ⊢
    split_ifs at hk ⊢
    · exact hk
    · exact h k v hk
  filter := by
    intro t u keep h k v hk
    rw [Table.get?_filter, Option.filter_eq_some_iff] at hk ⊢
    exact ⟨h k v hk.1, hk.2⟩
  adjust := by
    intro t u d change h k v hk
    rw [Table.get?_adjust] at hk ⊢
    split_ifs at hk ⊢
    · obtain ⟨w, hw, rfl⟩ := Option.map_eq_some_iff.1 hk
      rw [h k w hw]
      rfl
    · exact h k v hk

end DrawnAlike

variable {R : DrawnAlike}

namespace Editor

variable {e e' : Editor}

/-- Two editors are the same but for what is drawn, and that is related. -/
def Redrawn (R : DrawnAlike) (e e' : Editor) : Prop :=
  ∃ decorations, R.holds e.decorations decorations ∧ e' = { e with decorations }

lemma Redrawn.refl (e : Editor) : e.Redrawn .any e := ⟨_, trivial, rfl⟩

/-- What is drawn is related to itself where all that is drawn is included. -/
lemma Redrawn.self (e : Editor) : e.Redrawn .included e := ⟨_, fun _ _ hx => hx, rfl⟩

lemma Redrawn.text (h : e.Redrawn R e') : e'.text = e.text := by
  obtain ⟨d, -, rfl⟩ := h
  rfl

lemma Redrawn.settings (h : e.Redrawn R e') : e'.settings = e.settings := by
  obtain ⟨d, -, rfl⟩ := h
  rfl

lemma Redrawn.cursor (h : e.Redrawn R e') : e'.cursor = e.cursor := by
  obtain ⟨d, -, rfl⟩ := h
  rfl

lemma Redrawn.markers (h : e.Redrawn R e') : e'.markers = e.markers := by
  obtain ⟨d, -, rfl⟩ := h
  rfl

/-- Where something is drawn does not depend on what is drawn. -/
lemma Redrawn.screenPoint (h : e.Redrawn R e') : e'.screenPoint = e.screenPoint := by
  obtain ⟨d, -, rfl⟩ := h
  rfl

/-- The editor with nothing drawn. -/
def undrawn (e : Editor) : Editor :=
  { e with decorations := .empty }

/-- With nothing drawn an editor is otherwise the same. -/
lemma redrawn_undrawn (e : Editor) : e.Redrawn .included e.undrawn :=
  ⟨.empty, fun _ _ hx => absurd hx (by simp), rfl⟩

/-- Where nothing is drawn, no decoration hangs on a number that has not been handed out. -/
lemma tidy_undrawn (h : e.Kept) : e.undrawn.Tidy :=
  have hnone : ∀ d x, e.undrawn.decorations.get? d ≠ some x := fun d x => by simp [undrawn]
  ⟨{ h with decorations := fun d x hx => absurd hx (hnone d x) },
    fun d x hx => absurd hx (hnone d x)⟩

/-- Destroying a fold notifies the same markers, whatever is drawn. -/
lemma Redrawn.destroyFold (h : e.Redrawn R e') (id : FoldId) :
    (e.destroyFold id).Redrawn R (e'.destroyFold id) := by
  obtain ⟨d, hd, rfl⟩ := h
  unfold Editor.destroyFold
  dsimp only
  split
  · exact ⟨d, hd, rfl⟩
  · exact ⟨d, hd, rfl⟩

/-- Folding gives the same number and notifies the same markers, whatever is drawn. -/
lemma Redrawn.fold (h : e.Redrawn R e') (r : Range) :
    (e'.fold r).1 = (e.fold r).1 ∧ (e.fold r).2.Redrawn R (e'.fold r).2 := by
  obtain ⟨d, hd, rfl⟩ := h
  exact ⟨rfl, d, hd, rfl⟩

lemma Redrawn.destroyFolds (h : e.Redrawn R e') (p : PartialFold) :
    (p.destroy e).Redrawn R (p.destroy e') := by
  unfold PartialFold.destroy
  generalize p.folds = ids
  induction ids generalizing e e' with
  | nil => exact h
  | cons id ids ih => exact ih (h.destroyFold id)

lemma Redrawn.foldEach (h : e.Redrawn R e') (ranges : List Range) :
    (PartialFold.foldEach e' ranges).1 = (PartialFold.foldEach e ranges).1 ∧
      (PartialFold.foldEach e ranges).2.Redrawn R (PartialFold.foldEach e' ranges).2 := by
  induction ranges generalizing e e' with
  | nil => exact ⟨rfl, h⟩
  | cons r ranges ih =>
    obtain ⟨hid, hfold⟩ := h.fold r
    obtain ⟨hids, heach⟩ := ih hfold
    exact ⟨congrArg₂ List.cons hid hids, heach⟩

/-- Destroying a marker takes what is drawn at it along on both sides. -/
lemma Redrawn.destroyMarker (h : e.Redrawn R e') (id : MarkerId) :
    (e.destroyMarker id).Redrawn R (e'.destroyMarker id) := by
  obtain ⟨d, hd, rfl⟩ := h
  exact ⟨_, R.filter (fun _ x => x.marker != id) hd, rfl⟩

lemma Redrawn.decorate (h : e.Redrawn R e') (marker : MarkerId) (overlay : Overlay) :
    (e.decorate marker overlay).2.Redrawn R (e'.decorate marker overlay).2 := by
  obtain ⟨d, hd, rfl⟩ := h
  exact ⟨_, R.insert e.nextId ⟨marker, overlay⟩ hd, rfl⟩

lemma Redrawn.setStyle (h : e.Redrawn R e') (id : DecorationId) (style : String) :
    (e.setStyle id style).Redrawn R (e'.setStyle id style) := by
  obtain ⟨d, hd, rfl⟩ := h
  exact ⟨_, R.adjust id (fun x => { x with overlay := { x.overlay with style } }) hd, rfl⟩

lemma Redrawn.destroyDecoration (h : e.Redrawn R e') (id : DecorationId) :
    (e.destroyDecoration id).Redrawn R (e'.destroyDecoration id) := by
  obtain ⟨d, hd, rfl⟩ := h
  exact ⟨_, R.filter (fun k _ => k != id) hd, rfl⟩

/-- The same call of the host is made to both. -/
lemma Redrawn.run (h : e.Redrawn R e') (call : EditorCall) :
    (call.run e).Redrawn R (call.run e') := by
  cases call with
  | destroyFold id => exact h.destroyFold id
  | destroyMarker id => exact h.destroyMarker id
  | decorate marker overlay => exact h.decorate marker overlay
  | setStyle id style => exact h.setStyle id style
  | destroyDecoration id => exact h.destroyDecoration id
  | _ =>
    obtain ⟨d, hd, rfl⟩ := h
    exact ⟨d, hd, rfl⟩

end Editor

namespace Label

variable {e e' : Editor} (l : Label)

/-- A label is drawn under the same number, whatever else is drawn. -/
lemma redrawn_draw (h : e.Redrawn R e') :
    (l.draw e').1 = (l.draw e).1 ∧ (l.draw e).2.Redrawn R (l.draw e').2 := by
  have hdrawn := h.decorate l.marker l.overlay
  obtain ⟨d, hd, rfl⟩ := h
  unfold draw
  split
  · exact ⟨rfl, d, hd, rfl⟩
  · exact ⟨rfl, hdrawn⟩

lemma redrawn_hide (h : e.Redrawn R e') :
    (l.hide e').1 = (l.hide e).1 ∧ (l.hide e).2.Redrawn R (l.hide e').2 := by
  unfold hide
  split
  · exact ⟨rfl, h.destroyDecoration _⟩
  · exact ⟨rfl, h⟩

lemma redrawn_setStyle (h : e.Redrawn R e') (style : LabelStyle) :
    (l.setStyle e' style).1 = (l.setStyle e style).1 ∧
      (l.setStyle e style).2.Redrawn R (l.setStyle e' style).2 := by
  unfold setStyle
  dsimp only
  split
  · exact ⟨rfl, h.setStyle _ _⟩
  · exact ⟨rfl, h⟩

lemma redrawn_styled (h : e.Redrawn R e') (underCursor : Bool) :
    (l.styled e' underCursor).1 = (l.styled e underCursor).1 ∧
      (l.styled e underCursor).2.Redrawn R (l.styled e' underCursor).2 := by
  unfold styled
  split_ifs
  · exact l.redrawn_setStyle h _
  · exact ⟨rfl, h⟩

end Label

namespace FoldedEditor

variable {s t : FoldedEditor}

/-! ## Notifications -/

/-- Two states are the same but for what is drawn, and that is related. -/
def Redrawn (R : DrawnAlike) (s t : FoldedEditor) : Prop :=
  s.editor.Redrawn R t.editor ∧ t = { s with editor := t.editor }

lemma Redrawn.refl (s : FoldedEditor) : s.Redrawn .any s := ⟨.refl _, rfl⟩

lemma Redrawn.self (s : FoldedEditor) : s.Redrawn .included s := ⟨.self _, rfl⟩

lemma Redrawn.highlighter (h : s.Redrawn R t) : t.highlighter = s.highlighter := by
  rw [h.2]

/-- The state with nothing drawn. -/
def undrawn (s : FoldedEditor) : FoldedEditor :=
  { s with editor := s.editor.undrawn }

lemma redrawn_undrawn (s : FoldedEditor) : s.Redrawn .included s.undrawn :=
  ⟨s.editor.redrawn_undrawn, rfl⟩

/-- Taking a folding down does the same, whatever is drawn. -/
lemma Redrawn.destroyFolding (h : s.Redrawn R t) (id : FoldingId) :
    (s.destroyFolding id).Redrawn R (t.destroyFolding id) := by
  obtain ⟨he, ht⟩ := h
  unfold FoldedEditor.destroyFolding
  rw [ht]
  dsimp only
  split
  · exact ⟨he, rfl⟩
  · rename_i f _
    exact ⟨((f.label.redrawn_hide he).2.destroyFolds f.folds).destroyMarker f.marker, rfl⟩

/-- A notification is followed in the same way, whatever is drawn. -/
lemma Redrawn.onMarkerChange (h : s.Redrawn R t) (c : MarkerChange) :
    (s.onMarkerChange c).Redrawn R (t.onMarkerChange c) := by
  have hdestroy := h.destroyFolding
  obtain ⟨he, ht⟩ := h
  unfold FoldedEditor.onMarkerChange
  rw [ht]
  dsimp only
  split
  · exact ⟨he, rfl⟩
  · rename_i id f _
    split
    · exact ⟨he, rfl⟩
    · obtain ⟨hlabel, hdrawn⟩ := f.label.redrawn_draw he
      unfold FoldedEditor.followVisible
      dsimp only
      rw [hlabel]
      exact ⟨hdrawn, rfl⟩
    · obtain ⟨hstyle, hstyled⟩ := f.label.redrawn_setStyle he .normal
      unfold FoldedEditor.followHidden
      dsimp only
      rw [hstyle]
      obtain ⟨hlabel, hhidden⟩ := (f.label.setStyle s.editor .normal).1.redrawn_hide hstyled
      rw [hlabel]
      exact ⟨hhidden, rfl⟩
    · exact ht ▸ hdestroy id
    · exact ht ▸ hdestroy id

lemma Redrawn.setHighlight (h : s.Redrawn R t) (id : FoldingId) (on : Bool) :
    (s.setHighlight id on).Redrawn R (t.setHighlight id on) := by
  obtain ⟨he, ht⟩ := h
  unfold FoldedEditor.setHighlight
  rw [ht]
  dsimp only
  split
  · exact ⟨he, rfl⟩
  · rename_i f _
    split
    · exact ⟨he, rfl⟩
    · exact ⟨(f.label.redrawn_setStyle he _).2, rfl⟩

/-- Steps that do the same whatever is drawn do so one after the other. -/
lemma Redrawn.foldl {α : Type} {step : FoldedEditor → α → FoldedEditor}
    (hstep : ∀ s t x, s.Redrawn R t → (step s x).Redrawn R (step t x)) (xs : List α)
    (h : s.Redrawn R t) :
    (xs.foldl step s).Redrawn R (xs.foldl step t) := by
  induction xs generalizing s t with
  | nil => exact h
  | cons x xs ih => exact ih (hstep s t x h)

/-- The same foldings are examined when the cursor moves, whatever is drawn. -/
lemma Redrawn.onCursorMove (h : s.Redrawn R t) (m : CursorMove) :
    (s.onCursorMove m).Redrawn R (t.onCursorMove m) := by
  have hchanges : t.highlighter.onCursorMove m t.rangeOf? =
      s.highlighter.onCursorMove m s.rangeOf? := by
    obtain ⟨⟨d, hR, hd⟩, ht⟩ := h
    rw [ht, hd]
    rfl
  unfold FoldedEditor.onCursorMove
  rw [hchanges]
  refine Redrawn.foldl (fun s t c hst => ?_) _ h
  cases c with
  | add id => exact hst.setHighlight id true
  | remove id => exact hst.setHighlight id false

lemma Redrawn.live (h : s.Redrawn R t) : t.live = s.live := by
  rw [h.2]

/-- The foldings have the same ranges, whatever is drawn. -/
lemma Redrawn.rangeOf? (h : s.Redrawn R t) (id : FoldingId) : t.rangeOf? id = s.rangeOf? id := by
  obtain ⟨⟨d, hR, hd⟩, ht⟩ := h
  rw [ht, hd]
  rfl

lemma Redrawn.info? (h : s.Redrawn R t) (id : FoldingId) : t.info? id = s.info? id := by
  rw [h.2]
  rfl

/-- The screen without overlays looks the same. -/
lemma Redrawn.screen (h : s.Redrawn R t) : t.editor.foldRanges = s.editor.foldRanges ∧
    t.editor.screenLines = s.editor.screenLines := by
  obtain ⟨⟨d, -, hd⟩, -⟩ := h
  rw [hd]
  exact ⟨rfl, rfl⟩

lemma Redrawn.queues (h : s.Redrawn R t) : t.editor.markerChanges = s.editor.markerChanges ∧
    t.editor.cursorMoves = s.editor.cursorMoves := by
  obtain ⟨⟨d, -, hd⟩, -⟩ := h
  rw [hd]
  exact ⟨rfl, rfl⟩

lemma Redrawn.processRound (h : s.Redrawn R t) : s.processRound.Redrawn R t.processRound := by
  have hempty : s.emptied.Redrawn R t.emptied := by
    obtain ⟨⟨d, hR, hd⟩, ht⟩ := h
    rw [ht, hd]
    exact ⟨⟨d, hR, rfl⟩, rfl⟩
  show (s.editor.cursorMoves.foldl FoldedEditor.onCursorMove
      (s.editor.markerChanges.foldl FoldedEditor.onMarkerChange s.emptied)).Redrawn R
    (t.editor.cursorMoves.foldl FoldedEditor.onCursorMove
      (t.editor.markerChanges.foldl FoldedEditor.onMarkerChange t.emptied))
  rw [h.queues.1, h.queues.2]
  exact Redrawn.foldl (fun _ _ m hst => hst.onCursorMove m) _
    (Redrawn.foldl (fun _ _ c hst => hst.onMarkerChange c) _ hempty)

/-- Processing takes the same rounds, whatever is drawn. -/
lemma Redrawn.process (h : s.Redrawn R t) : s.process.Redrawn R t.process := by
  unfold FoldedEditor.process
  rw [h.live]
  generalize s.live.size + 1 = rounds
  induction rounds generalizing s t with
  | zero => exact h
  | succ rounds ih =>
    have hpending : t.editor.hasPending = s.editor.hasPending := by
      rw [Editor.hasPending, Editor.hasPending, h.queues.1, h.queues.2]
    unfold FoldedEditor.processRounds
    rw [hpending]
    split
    · exact ih h.processRound
    · exact h

lemma Redrawn.unfoldAll (h : s.Redrawn R t) : s.unfoldAll.Redrawn R t.unfoldAll := by
  have hdown := Redrawn.foldl (fun _ _ id hst => hst.destroyFolding id) s.live.keys h
  unfold FoldedEditor.unfoldAll
  rw [h.live]
  refine Redrawn.process ⟨hdown.1, ?_⟩
  dsimp only
  rw [hdown.2]

/-! ## Batches -/

/-- The same answer in a state with other decorations. -/
def SameAnswer (R : DrawnAlike) {α : Type} (x y : α × FoldedEditor) : Prop :=
  y.1 = x.1 ∧ x.2.Redrawn R y.2

variable {request : FoldRequest} {requests : List FoldRequest}

lemma Redrawn.adopt (h : s.Redrawn R t) (request : FoldRequest) (marker : MarkerId)
    (folds : PartialFold) (label : Label) :
    (t.adopt request marker folds label).1 = (s.adopt request marker folds label).1 ∧
      (s.adopt request marker folds label).2.Redrawn R (t.adopt request marker folds label).2 := by
  obtain ⟨⟨d, hR, hd⟩, ht⟩ := h
  obtain ⟨hlabel, hstyled⟩ := label.redrawn_styled ⟨d, hR, hd⟩
    ((s.editor.markerRange? marker).any (·.contains s.editor.cursor))
  rw [hd] at hlabel hstyled
  rw [ht, hd]
  refine ⟨rfl, hstyled, ?_⟩
  unfold FoldedEditor.adopt FoldedEditor.register
  dsimp only
  rw [← hlabel]
  rfl

/-- Making the folds for a request has the same outcome, whatever is drawn. -/
lemma redrawn_create {e e' : Editor} (h : e.Redrawn R e') (marker : MarkerId) (width : Nat) :
    Alike (fun x y => y.1 = x.1 ∧ x.2.Redrawn R y.2) (PartialFold.create e marker width)
      (PartialFold.create e' marker width) := by
  have heach := h.foldEach
  obtain ⟨d, -, rfl⟩ := h
  have hrange : ({ e with decorations := d } : Editor).markerRange? marker =
      e.markerRange? marker := rfl
  unfold PartialFold.create
  rw [hrange]
  dsimp only
  split
  · exact rfl
  · split
    · exact rfl
    · rename_i r _
      have hread : ({ e with decorations := d } : Editor).read r = e.read r := rfl
      rw [hread]
      cases e.read r with
      | error fault => exact rfl
      | ok text =>
        simp only [bind, Except.bind]
        split
        · exact rfl
        · obtain ⟨hids, hfolded⟩ := heach (PartialFold.pieces e.text r width)
          exact ⟨congrArg (PartialFold.mk marker) hids, hfolded⟩

/-- Making a folding has the same outcome, whatever is drawn. -/
lemma Redrawn.createFolding (h : s.Redrawn R t) (request : FoldRequest) :
    Alike (SameAnswer R) (s.createFolding request) (t.createFolding request) := by
  rw [createFolding_eq, createFolding_eq]
  obtain ⟨⟨d, hR, hd⟩, ht⟩ := h.process
  generalize s.process = s at *
  generalize t.process = t at *
  rw [ht, hd]
  have hmarker : (s.editor.createMarker request.range).2.Redrawn R
      (({ s.editor with decorations := d } : Editor).createMarker request.range).2 := ⟨d, hR, rfl⟩
  refine (redrawn_create hmarker s.editor.nextId request.preview.length).bind ?_
  rintro ⟨p, e⟩ ⟨p', e'⟩ ⟨hp, he⟩
  obtain rfl : p' = p := hp
  obtain ⟨hlabel, hdrawn⟩ := Label.redrawn_draw ⟨s.editor.nextId, request.preview, .normal, none⟩ he
  have hstate : ({ s with editor := (Label.create e s.editor.nextId request.preview).2 } :
      FoldedEditor).Redrawn R
      { s with editor := (Label.create e' s.editor.nextId request.preview).2 } := ⟨hdrawn, rfl⟩
  dsimp only
  rw [show (Label.create e' s.editor.nextId request.preview).1 =
    (Label.create e s.editor.nextId request.preview).1 from hlabel]
  exact hstate.process.adopt request s.editor.nextId p' _

lemma Redrawn.foldOne (h : s.Redrawn R t) (maxLineLength : Option Nat) (request : FoldRequest) :
    Alike (SameAnswer R) (s.foldOne maxLineLength request) (t.foldOne maxLineLength request) := by
  have hcheck : PartialFold.check t.editor request.range request.preview.length maxLineLength =
      PartialFold.check s.editor request.range request.preview.length maxLineLength := by
    obtain ⟨⟨d, -, hd⟩, -⟩ := h
    rw [hd]
    rfl
  unfold FoldedEditor.foldOne
  rw [h.live, hcheck]
  split
  · exact ⟨rfl, h⟩
  · cases PartialFold.check s.editor request.range request.preview.length maxLineLength with
    | error fault => exact rfl
    | ok check =>
      simp only [bind, Except.bind]
      split
      · refine (h.createFolding request).bind fun x y hxy => ?_
        exact ⟨by rw [hxy.1], hxy.2⟩
      · exact ⟨rfl, h⟩

/-- Serving requests one after the other has the same outcome, whatever is drawn. -/
lemma Redrawn.foldEach (h : s.Redrawn R t) (maxLineLength : Option Nat)
    (requests : List FoldRequest) :
    Alike (SameAnswer R) (s.foldEach maxLineLength requests)
      (t.foldEach maxLineLength requests) := by
  induction requests generalizing s t with
  | nil => exact ⟨rfl, h⟩
  | cons request rest ih =>
    unfold FoldedEditor.foldEach
    refine (h.foldOne maxLineLength request).bind fun x y hxy => ?_
    refine (ih hxy.2).bind fun xs ys hxys => ?_
    exact ⟨congrArg₂ List.cons hxy.1 hxys.1, hxys.2⟩

lemma Redrawn.batchStart (h : s.Redrawn R t) : s.batchStart.Redrawn R t.batchStart := by
  obtain ⟨⟨d, hR, hd⟩, ht⟩ := h.process
  unfold FoldedEditor.batchStart
  rw [ht, hd]
  exact ⟨⟨d, hR, rfl⟩, rfl⟩

/-- A batch is served alike. -/
lemma Redrawn.foldAll (h : s.Redrawn R t) (requests : List FoldRequest) :
    Alike (SameAnswer R) (s.foldAll requests) (t.foldAll requests) := by
  have hsettings := h.process.1.settings
  have hhighlighter := h.process.highlighter
  unfold FoldedEditor.foldAll
  rw [h.1.settings]
  cases s.editor.settings.maxLineLength with
  | error fault => exact rfl
  | ok maxLineLength =>
    have heach := h.batchStart.foldEach maxLineLength requests
    unfold FoldedEditor.batchStart at heach
    dsimp only
    rw [hhighlighter] at heach ⊢
    rw [hsettings]
    obtain ⟨fault, hs, ht⟩ | ⟨x, y, hs, ht, hanswer, hxy⟩ := heach.error_or_ok
    · rw [hs, ht]
      exact rfl
    · rw [hs, ht]
      obtain ⟨⟨d, hR, hd⟩, heq⟩ := hxy
      refine ⟨hanswer, ?_⟩
      dsimp only
      rw [heq, hd]
      exact ⟨⟨d, hR, rfl⟩, rfl⟩

/-- A batch leads to the same, whatever is drawn. -/
lemma Redrawn.afterBatch (h : s.Redrawn R t) (requests : List FoldRequest) :
    (s.afterBatch requests).Redrawn R (t.afterBatch requests) := by
  unfold FoldedEditor.afterBatch
  obtain ⟨fault, hs, ht⟩ | ⟨x, y, hs, ht, -, hxy⟩ := (h.foldAll requests).error_or_ok
  · rw [hs, ht]
    exact h
  · rw [hs, ht]
    exact hxy

/-! ## The host -/

/-- The calls by which a host draws. -/
def DrawsOnly : EditorCall → Prop
  | .decorate _ _ | .setStyle _ _ | .destroyDecoration _ => True
  | _ => False

/-- The state with one number more handed out. -/
def numberTaken (s : FoldedEditor) : FoldedEditor :=
  { s with editor := { s.editor with nextId := s.editor.nextId + 1 } }

variable {call : EditorCall}

/-- A call of the host on both sides does the same, whatever is drawn. -/
lemma Redrawn.host (h : s.Redrawn R t) (call : EditorCall) :
    (s.host fun e => call.run e).Redrawn R (t.host fun e => call.run e) := by
  refine ⟨h.1.run call, ?_⟩
  rw [h.2]
  rfl

/-- What a host draws goes unnoticed, but that it may take a number. -/
lemma Redrawn.host_of_drawsOnly (h : s.Redrawn .any t) (hc : DrawsOnly call) :
    (s.host fun e => call.run e).Redrawn .any t ∨
      (s.host fun e => call.run e).Redrawn .any t.numberTaken := by
  obtain ⟨⟨d, -, hd⟩, ht⟩ := h
  rw [ht, hd]
  cases call with
  | decorate marker overlay => exact .inr ⟨⟨d, trivial, rfl⟩, rfl⟩
  | setStyle id style => exact .inl ⟨⟨d, trivial, rfl⟩, rfl⟩
  | destroyDecoration id => exact .inl ⟨⟨d, trivial, rfl⟩, rfl⟩
  | _ => exact hc.elim

end FoldedEditor

/-! ## Folders -/

namespace AutoFolder

variable {a b : AutoFolder}

/-- Two folders are the same but for what is drawn, and that is related. -/
structure Redrawn (R : DrawnAlike) (a b : AutoFolder) : Prop where
  folded : a.folded.Redrawn R b.folded
  nextId : b.nextId = a.nextId

lemma Redrawn.unfoldAll (h : a.Redrawn R b) : a.unfoldAll.Redrawn R b.unfoldAll :=
  ⟨h.folded.unfoldAll, h.nextId⟩

/-- A buffer is folded alike. -/
lemma Redrawn.foldAll (h : a.Redrawn R b) :
    b.foldAll.1 = a.foldAll.1 ∧ a.foldAll.2.Redrawn R b.foldAll.2 := by
  have hunfolded := h.folded.unfoldAll
  unfold AutoFolder.foldAll
  dsimp only
  rw [hunfolded.1.text, h.nextId]
  obtain ⟨fault, ha, hb⟩ | ⟨x, y, ha, hb, hanswer, hxy⟩ := (hunfolded.foldAll
    (requestsFor a.nextId (Occurrence.all a.folded.unfoldAll.editor.text))).error_or_ok
  · rw [ha, hb]
    exact ⟨rfl, hunfolded, rfl⟩
  · rw [ha, hb]
    dsimp only
    rw [hanswer]
    exact ⟨rfl, hxy, rfl⟩

end AutoFolder

end TemplateFolding
