import TemplateFolding.Folding.Label
import TemplateFolding.Folding.PartialFold
import TemplateFolding.Proofs.EditorRuns

/-!
# Operations that leave a marker alone

An operation spares a marker when it is not about it: the marker may be moved by the operation, but
the queue still accounts for it, and what is drawn at it stays. Every call spares every marker that
it does not name.
-/

namespace TemplateFolding

namespace Editor

/-- The marker `k` exists, and the queue accounts for it since its extent was `known`. -/
def Tracks (e : Editor) (k : MarkerId) (known : Range) : Prop :=
  ∃ m, e.markers.get? k = some m ∧ e.Accounts k m known

/-- Between two states of an editor the marker `k` is tracked, and what is drawn at it stays. -/
structure Spares (e e' : Editor) (k : MarkerId) : Prop where
  tracks : ∀ known, e.Tracks k known → e'.Tracks k known
  decorations : ∀ d x, x.marker = k →
    (e'.decorations.get? d = some x ↔ e.decorations.get? d = some x)

variable {e e' e'' : Editor} {k : MarkerId} {known : Range}

lemma Spares.refl (e : Editor) (k : MarkerId) : e.Spares e k where
  tracks := fun _ h => h
  decorations := fun _ _ _ => Iff.rfl

lemma Spares.trans (h : e.Spares e' k) (h' : e'.Spares e'' k) : e.Spares e'' k where
  tracks := fun known hk => h'.tracks known (h.tracks known hk)
  decorations := by
    intro d x hx
    rw [h'.decorations d x hx, h.decorations d x hx]

/-- An operation that neither moves nor queues anything keeps the account. -/
lemma Tracks.of_still (h : e.Tracks k known) (hm : e'.markers.get? k = e.markers.get? k)
    (hp : e'.pending? k = e.pending? k) (ht : e'.text = e.text) (hf : e'.folds = e.folds) :
    e'.Tracks k known := by
  obtain ⟨m, hget, hacc⟩ := h
  exact ⟨m, hm.trans hget, hacc.congr hp ht hf⟩

/-- A tracked change that keeps the marker in the table. -/
lemma Spares.track (change : Editor → Editor)
    (hq : (change e).markerChanges = e.markerChanges)
    (hd : (change e).decorations = e.decorations)
    (hm : ∀ m, e.markers.get? k = some m →
      ∃ m', (change e).markers.get? k = some m' ∧ (m.valid = false → m' = m)) :
    e.Spares (track change e) k where
  tracks := by
    rintro known ⟨m, hget, hacc⟩
    obtain ⟨m', hm', hinv⟩ := hm m hget
    exact ⟨m', hm', hacc.track hq hget hm' hinv⟩
  decorations := by
    intro d x _
    rw [track_decorations, hd]

/-- A tracked change that does not touch the markers. -/
lemma Spares.track_of_markers (change : Editor → Editor)
    (hq : (change e).markerChanges = e.markerChanges)
    (hd : (change e).decorations = e.decorations) (hm : (change e).markers = e.markers) :
    e.Spares (Editor.track change e) k := by
  apply Spares.track change hq hd
  intro m hget
  exact ⟨m, by rw [hm, hget], fun _ => rfl⟩

/-! ## The calls -/

/-- Replacing text moves the markers and notifies them, but it spares them all. -/
lemma spares_replace (e : Editor) (k : MarkerId) (r : Range) (text : Text) :
    e.Spares (e.replace r text).2 k := by
  rw [replace_eq]
  refine Spares.track (·.splice _ text) rfl rfl ?_
  intro m hget
  refine ⟨m.afterEdit (e.editOf r text), ?_, ?_⟩
  · simp only [splice, Table.get?_map, hget, Option.map_some]
  · intro hv
    rw [Marker.afterEdit, if_neg (by simp [hv])]

/-- Folding changes where markers are drawn, and notifies those that it hides or moves. -/
lemma spares_fold (e : Editor) (k : MarkerId) (r : Range) : e.Spares (e.fold r).2 k := by
  have hnext : e.Spares { e with nextId := e.nextId + 1 } k :=
    ⟨fun _ h => h.of_still rfl rfl rfl rfl, fun _ _ _ => Iff.rfl⟩
  exact hnext.trans
    (Spares.track_of_markers (fun d => { d with folds := d.folds.insert _ _ }) rfl rfl rfl)

/-- Unfolding changes where markers are drawn, and notifies those that it shows or moves. -/
lemma spares_destroyFold (e : Editor) (k : MarkerId) (id : FoldId) :
    e.Spares (e.destroyFold id) k := by
  rw [destroyFold]
  split
  · exact Spares.track_of_markers (fun d => { d with folds := d.folds.erase id }) rfl rfl rfl
  · exact Spares.refl e k

/-- A new marker has a new number, so it spares all that are there. -/
lemma spares_createMarker (h : e.Kept) (r : Range) : e.Spares (e.createMarker r).2 k where
  tracks := by
    rintro known ⟨m, hget, hacc⟩
    have hlt := h.markers k m hget
    refine ⟨m, ?_, hacc.congr rfl rfl rfl⟩
    simp only [createMarker]
    rw [Table.get?_insert_of_ne _ _ (Nat.ne_of_lt hlt), hget]
  decorations := fun _ _ _ => Iff.rfl

/-- Destroying a marker spares the others. -/
lemma spares_destroyMarker (e : Editor) {id : MarkerId} (hne : k ≠ id) :
    e.Spares (e.destroyMarker id) k := by
  refine ⟨fun known h => h.of_still (Table.get?_erase_of_ne _ hne) ?_ rfl rfl, ?_⟩
  · -- the filter passes over the notification of another marker
    simp only [pending?, destroyMarker, MarkerChange.of?, List.find?_filter]
    congr 1
    funext c
    by_cases hc : c.marker = k
    · simp [hc, hne]
    · simp [hc]
  · intro d x hx
    simp only [destroyMarker, Table.get?_filter, Option.filter_eq_some_iff]
    constructor
    · exact fun h => h.1
    · exact fun h => ⟨h, by simp [hx, hne]⟩

/-- Drawing at a marker spares the others. -/
lemma spares_decorate (hk : e.Kept) {marker : MarkerId} (hne : marker ≠ k) (overlay : Overlay) :
    e.Spares (e.decorate marker overlay).2 k := by
  refine ⟨fun _ h => h.of_still rfl rfl rfl rfl, ?_⟩
  intro d x hx
  simp only [decorate, Table.get?_insert]
  split_ifs with hd
  · rw [hd, hk.decorations.get?_eq_none]
    constructor
    · intro heq
      rw [← Option.some.inj heq] at hx
      exact absurd hx hne
    · intro heq
      exact absurd heq (by simp)
  · rfl

/-- Styling a decoration spares the markers that it does not hang on. -/
lemma spares_setStyle {id : DecorationId}
    (hne : ∀ x, e.decorations.get? id = some x → x.marker ≠ k) (style : String) :
    e.Spares (e.setStyle id style) k := by
  refine ⟨fun _ h => h.of_still rfl rfl rfl rfl, ?_⟩
  intro d x hx
  simp only [setStyle, Table.get?_adjust]
  split_ifs with hd
  · rw [hd, Option.map_eq_some_iff]
    constructor
    · rintro ⟨y, hy, rfl⟩
      exact absurd hx (hne y hy)
    · intro hy
      exact absurd hx (hne x hy)
  · rfl

/-- Destroying a decoration spares the markers that it does not hang on. -/
lemma spares_destroyDecoration {id : DecorationId}
    (hne : ∀ x, e.decorations.get? id = some x → x.marker ≠ k) :
    e.Spares (e.destroyDecoration id) k := by
  refine ⟨fun _ h => h.of_still rfl rfl rfl rfl, ?_⟩
  intro d x hx
  simp only [destroyDecoration, Table.get?_erase]
  split_ifs with hd
  · constructor
    · intro h
      exact absurd h (by simp)
    · intro hy
      exact absurd hx (hne x (hd ▸ hy))
  · rfl

end Editor

/-- Whether a call is not about the marker `k` or what is drawn at it. -/
def EditorCall.LeavesAlone (e : Editor) (k : MarkerId) : EditorCall → Prop
  | .destroyMarker id => id ≠ k
  | .decorate marker _ => marker ≠ k
  | .setStyle id _ => ∀ x, e.decorations.get? id = some x → x.marker ≠ k
  | .destroyDecoration id => ∀ x, e.decorations.get? id = some x → x.marker ≠ k
  | .drainMarkerChanges => False
  | _ => True

/-- A call spares every marker that it leaves alone. -/
theorem Editor.Spares.run {e : Editor} {k : MarkerId} (h : e.Kept) {call : EditorCall}
    (hc : call.LeavesAlone e k) : e.Spares (call.run e) k := by
  cases call with
  | insert p text => exact spares_replace e k _ text
  | replace r text => exact spares_replace e k r text
  | setCursor p =>
    exact Spares.track_of_markers (fun d => { d with cursor := d.text.clip p }) rfl rfl rfl
  | fold r => exact spares_fold e k r
  | destroyFold id => exact spares_destroyFold e k id
  | unfoldRow row =>
    exact Spares.track_of_markers (fun d => { d with folds := d.folds.filter _ }) rfl rfl rfl
  | createMarker r => exact spares_createMarker h r
  | destroyMarker id => exact spares_destroyMarker e (Ne.symm hc)
  | decorate marker overlay => exact spares_decorate h hc overlay
  | setStyle id style => exact spares_setStyle hc style
  | destroyDecoration id => exact spares_destroyDecoration hc
  | configure settings => exact ⟨fun _ h => h.of_still rfl rfl rfl rfl, fun _ _ _ => Iff.rfl⟩
  | drainMarkerChanges => exact absurd hc id
  | drainCursorMoves => exact ⟨fun _ h => h.of_still rfl rfl rfl rfl, fun _ _ _ => Iff.rfl⟩

end TemplateFolding
