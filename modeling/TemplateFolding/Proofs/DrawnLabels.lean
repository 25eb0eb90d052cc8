import TemplateFolding.Proofs.SparedMarkers

/-!
# Labels on the screen

A label owns one decoration while it is drawn and none while it is hidden. Drawing, hiding and
restyling it change nothing in the editor but what is drawn at its marker, and leave the label in
step with the decorations there.
-/

namespace TemplateFolding

/-! ## Decorations hang on markers that have been handed out -/

namespace Editor

/-- A kept editor in which every decoration hangs on a marker whose number has been handed out. -/
structure Tidy (e : Editor) : Prop extends Kept e where
  decorated : ∀ d x, e.decorations.get? d = some x → x.marker < e.nextId

/-- Decorations that hang where decorations hung before. -/
lemma Tidy.mono {e e' : Editor} (h : e.Tidy) (hk : e'.Kept)
    (hd : ∀ d x, e'.decorations.get? d = some x →
      ∃ y, e.decorations.get? d = some y ∧ y.marker = x.marker)
    (hn : e.nextId ≤ e'.nextId) : e'.Tidy where
  toKept := hk
  decorated := by
    intro d x hx
    obtain ⟨y, hy, hmarker⟩ := hd d x hx
    rw [← hmarker]
    exact Nat.lt_of_lt_of_le (h.decorated d y hy) hn

/-- A call keeps this when it decorates no marker that has not been handed out. -/
lemma Tidy.run {e : Editor} (h : e.Tidy) {call : EditorCall}
    (hc : ∀ marker overlay, call = .decorate marker overlay → marker < e.nextId) :
    (call.run e).Tidy := by
  have hk := h.toKept.run call
  have hsame : ∀ d x, e.decorations.get? d = some x →
      ∃ y, e.decorations.get? d = some y ∧ y.marker = x.marker := fun d x hx => ⟨x, hx, rfl⟩
  -- only `decorate` adds a decoration; the other calls keep or remove those there are
  cases call with
  | insert p text => exact h.mono hk hsame (Nat.le_refl _)
  | replace r text => exact h.mono hk hsame (Nat.le_refl _)
  | setCursor p => exact h.mono hk hsame (Nat.le_refl _)
  | fold r => exact h.mono hk hsame (Nat.le_succ _)
  | destroyFold id =>
    unfold EditorCall.run destroyFold at *
    dsimp only at *
    split
    · exact h.mono (by rwa [if_pos ‹_›] at hk) hsame (Nat.le_refl _)
    · exact h
  | unfoldRow row => exact h.mono hk hsame (Nat.le_refl _)
  | createMarker r => exact h.mono hk hsame (Nat.le_succ _)
  | destroyMarker id =>
    refine h.mono hk (fun d x hx => ⟨x, ?_, rfl⟩) (Nat.le_refl _)
    simp only [EditorCall.run, destroyMarker, Table.get?_filter, Option.filter_eq_some_iff] at hx
    exact hx.1
  | decorate marker overlay =>
    refine ⟨hk, ?_⟩
    intro d x hx
    simp only [EditorCall.run, decorate, Table.get?_insert] at hx
    show x.marker < e.nextId + 1
    split_ifs at hx with hd
    · rw [← Option.some.inj hx]
      exact Nat.lt_succ_of_lt (hc marker overlay rfl)
    · exact Nat.lt_succ_of_lt (h.decorated d x hx)
  | setStyle id style =>
    refine h.mono hk (fun d x hx => ?_) (Nat.le_refl _)
    simp only [EditorCall.run, setStyle, Table.get?_adjust] at hx
    split_ifs at hx
    · obtain ⟨y, hy, rfl⟩ := Option.map_eq_some_iff.1 hx
      exact ⟨y, hy, rfl⟩
    · exact ⟨x, hx, rfl⟩
  | destroyDecoration id =>
    refine h.mono hk (fun d x hx => ⟨x, ?_, rfl⟩) (Nat.le_refl _)
    simp only [EditorCall.run, destroyDecoration, Table.get?_erase] at hx
    split_ifs at hx
    exact hx
  | configure settings => exact h.mono hk hsame (Nat.le_refl _)
  | drainMarkerChanges => exact h.mono hk hsame (Nat.le_refl _)
  | drainCursorMoves => exact h.mono hk hsame (Nat.le_refl _)

/-- Destroying a fold does not touch the decorations. -/
lemma Tidy.destroyFold {e : Editor} (h : e.Tidy) (id : FoldId) : (e.destroyFold id).Tidy := by
  show (EditorCall.run e (.destroyFold id)).Tidy
  exact h.run (by simp)

lemma tidy_new (text : Text) (settings : Settings) : ({ text, settings } : Editor).Tidy where
  toKept := kept_new text settings
  decorated := fun _ _ h => by simp at h

end Editor

/-! ## Labels -/

/-- An operation that changes only what is drawn at the marker `k`. -/
structure Editor.Redraws (e e' : Editor) (k : MarkerId) : Prop where
  text : e'.text = e.text
  settings : e'.settings = e.settings
  cursor : e'.cursor = e.cursor
  folds : e'.folds = e.folds
  markers : e'.markers = e.markers
  markerChanges : e'.markerChanges = e.markerChanges
  cursorMoves : e'.cursorMoves = e.cursorMoves
  nextId : e.nextId ≤ e'.nextId
  others : ∀ d x, x.marker ≠ k →
    (e'.decorations.get? d = some x ↔ e.decorations.get? d = some x)

namespace Editor.Redraws

variable {e e' e'' : Editor} {k k' : MarkerId} {known : Range}

lemma refl (e : Editor) (k : MarkerId) : e.Redraws e k :=
  ⟨rfl, rfl, rfl, rfl, rfl, rfl, rfl, Nat.le_refl _, fun _ _ _ => Iff.rfl⟩

lemma trans (h : e.Redraws e' k) (h' : e'.Redraws e'' k) : e.Redraws e'' k where
  text := h'.text.trans h.text
  settings := h'.settings.trans h.settings
  cursor := h'.cursor.trans h.cursor
  folds := h'.folds.trans h.folds
  markers := h'.markers.trans h.markers
  markerChanges := h'.markerChanges.trans h.markerChanges
  cursorMoves := h'.cursorMoves.trans h.cursorMoves
  nextId := Nat.le_trans h.nextId h'.nextId
  others := by
    intro d x hx
    rw [h'.others d x hx, h.others d x hx]

/-- Drawing does not touch the account of any marker. -/
lemma tracks (h : e.Redraws e' k) (ht : e.Tracks k' known) : e'.Tracks k' known := by
  refine ht.of_still (by rw [h.markers]) ?_ h.text h.folds
  rw [pending?, pending?, h.markerChanges]

/-- Redrawing at one marker spares all others. -/
lemma spares (h : e.Redraws e' k) (hne : k' ≠ k) : e.Spares e' k' where
  tracks := fun _ ht => h.tracks ht
  decorations := by
    intro d x hx
    exact h.others d x (hx ▸ hne)

end Editor.Redraws

namespace Label

variable {l : Label} {e : Editor}

/-- The overlay that a label draws. -/
def overlay (l : Label) : Overlay :=
  ⟨l.text, l.style.name⟩

/-- What is drawn at the marker of a label is the label and nothing else. -/
def DrawnIn (l : Label) (e : Editor) : Prop :=
  ∀ d x, e.decorations.get? d = some x ∧ x.marker = l.marker ↔
    l.decoration = some d ∧ x = ⟨l.marker, l.overlay⟩

/-- A decoration of the label is in the table. -/
lemma DrawnIn.get? (h : l.DrawnIn e) {d : DecorationId} (hd : l.decoration = some d) :
    e.decorations.get? d = some ⟨l.marker, l.overlay⟩ :=
  ((h d _).2 ⟨hd, rfl⟩).1

/-- Whether a label is drawn is a matter of the decorations at its marker alone. -/
lemma DrawnIn.congr {e' : Editor} (h : l.DrawnIn e)
    (hd : ∀ d x, x.marker = l.marker →
      (e'.decorations.get? d = some x ↔ e.decorations.get? d = some x)) : l.DrawnIn e' := by
  intro d x
  rw [← h d x]
  constructor
  · rintro ⟨hx, hm⟩
    exact ⟨(hd d x hm).1 hx, hm⟩
  · rintro ⟨hx, hm⟩
    exact ⟨(hd d x hm).2 hx, hm⟩

/-- Drawing a label changes the decorations at its marker, and nothing else. -/
lemma redraws_draw (l : Label) (hk : e.Kept) : e.Redraws (l.draw e).2 l.marker := by
  unfold draw
  split
  · exact Editor.Redraws.refl e l.marker
  · refine ⟨rfl, rfl, rfl, rfl, rfl, rfl, rfl, Nat.le_succ _, ?_⟩
    intro d x hx
    exact (Editor.spares_decorate hk (Ne.symm hx) l.overlay).decorations d x rfl

/-- A label that is drawn as recorded is so again after it has been drawn. -/
lemma drawnIn_draw (h : l.DrawnIn e) : (l.draw e).1.DrawnIn (l.draw e).2 := by
  unfold draw
  split
  · exact h
  · rename_i hnone
    intro d x
    simp only [Editor.decorate, Table.get?_insert]
    split_ifs with hd
    · simp only [Option.some.injEq, hd, true_and, overlay]
      constructor
      · exact fun hx => hx.1.symm
      · rintro rfl
        exact ⟨rfl, rfl⟩
    · have hold := h d x
      rw [hnone] at hold
      simp only [reduceCtorEq, false_and, iff_false] at hold
      constructor
      · exact fun hx => absurd hx hold
      · exact fun hx => absurd (Option.some.inj hx.1).symm hd

@[simp] lemma marker_draw (l : Label) (e : Editor) : (l.draw e).1.marker = l.marker := by
  unfold draw
  split <;> rfl

@[simp] lemma text_draw (l : Label) (e : Editor) : (l.draw e).1.text = l.text := by
  unfold draw
  split <;> rfl

/-- Drawing a label on a marker that has been handed out leaves the editor tidy. -/
lemma tidy_draw (h : e.Tidy) (hl : l.marker < e.nextId) : (l.draw e).2.Tidy := by
  unfold draw
  split
  · exact h
  · show (EditorCall.run e (.decorate l.marker l.overlay)).Tidy
    refine h.run ?_
    intro marker overlay heq
    rw [← (EditorCall.decorate.inj heq).1]
    exact hl

lemma isHidden_draw (l : Label) (e : Editor) : (l.draw e).1.isHidden = false := by
  unfold draw
  split
  · rename_i d hd
    rw [isHidden, hd]
    rfl
  · rfl

/-- Hiding a label changes the decorations at its marker, and nothing else. -/
lemma redraws_hide (h : l.DrawnIn e) : e.Redraws (l.hide e).2 l.marker := by
  unfold hide
  split
  · rename_i d hd
    refine ⟨rfl, rfl, rfl, rfl, rfl, rfl, rfl, Nat.le_refl _, ?_⟩
    intro d' x hx
    refine (Editor.spares_destroyDecoration ?_).decorations d' x rfl
    intro y hy
    rw [h.get? hd] at hy
    rw [← Option.some.inj hy]
    exact Ne.symm hx
  · exact Editor.Redraws.refl e l.marker

lemma drawnIn_hide (h : l.DrawnIn e) : (l.hide e).1.DrawnIn (l.hide e).2 := by
  unfold hide
  split
  · rename_i d hd
    intro d' x
    simp only [Editor.destroyDecoration, Table.get?_erase, reduceCtorEq, false_and, iff_false]
    rintro ⟨hx, hm⟩
    split_ifs at hx with hne
    have hold := ((h d' x).1 ⟨hx, hm⟩).1
    rw [hd] at hold
    exact hne (Option.some.inj hold).symm
  · exact h

@[simp] lemma marker_hide (l : Label) (e : Editor) : (l.hide e).1.marker = l.marker := by
  unfold hide
  split <;> rfl

@[simp] lemma text_hide (l : Label) (e : Editor) : (l.hide e).1.text = l.text := by
  unfold hide
  split <;> rfl

/-- Hiding a label leaves the editor tidy: a decoration can only go. -/
lemma tidy_hide (h : e.Tidy) : (l.hide e).2.Tidy := by
  unfold hide
  split
  · rename_i d _
    show (EditorCall.run e (.destroyDecoration d)).Tidy
    exact h.run (by simp)
  · exact h

lemma isHidden_hide (l : Label) (e : Editor) : (l.hide e).1.isHidden = true := by
  unfold hide
  split
  · rfl
  · rename_i hnone
    rw [isHidden, hnone]
    rfl

/-- Styling a label changes the decorations at its marker, and nothing else. -/
lemma redraws_setStyle (h : l.DrawnIn e) (style : LabelStyle) :
    e.Redraws (l.setStyle e style).2 l.marker := by
  unfold setStyle
  dsimp only
  split
  · rename_i d hd
    refine ⟨rfl, rfl, rfl, rfl, rfl, rfl, rfl, Nat.le_refl _, ?_⟩
    intro d' x hx
    refine (Editor.spares_setStyle ?_ style.name).decorations d' x rfl
    intro y hy
    rw [h.get? hd] at hy
    rw [← Option.some.inj hy]
    exact Ne.symm hx
  · exact Editor.Redraws.refl e l.marker

/-- Styling a label leaves the editor tidy: its decoration hangs where it hung. -/
lemma tidy_setStyle (h : e.Tidy) (style : LabelStyle) : (l.setStyle e style).2.Tidy := by
  unfold setStyle
  dsimp only
  split
  · rename_i d _
    show (EditorCall.run e (.setStyle d style.name)).Tidy
    exact h.run (by simp)
  · exact h

lemma drawnIn_setStyle (h : l.DrawnIn e) (style : LabelStyle) :
    (l.setStyle e style).1.DrawnIn (l.setStyle e style).2 := by
  unfold setStyle
  dsimp only
  split
  · rename_i d hd
    intro d' x
    simp only [Editor.setStyle, Table.get?_adjust, hd]
    have hget := h.get? hd
    split_ifs with hne
    · rw [hne, hget]
      simp only [Option.map_some, Option.some.injEq, true_and, overlay]
      constructor
      · exact fun hx => hx.1.symm
      · rintro rfl
        exact ⟨rfl, rfl⟩
    · constructor
      · intro hx
        have hold := ((h d' x).1 hx).1
        rw [hd] at hold
        exact absurd (Option.some.inj hold).symm hne
      · exact fun hx => absurd (Option.some.inj hx.1).symm hne
  · rename_i hnone
    intro d' x
    have hold := h d' x
    rw [hnone] at hold ⊢
    simpa using hold

/-- A label is restyled before it is hidden. -/
lemma redraws_setStyle_hide (h : l.DrawnIn e) (style : LabelStyle) :
    e.Redraws ((l.setStyle e style).1.hide (l.setStyle e style).2).2 l.marker :=
  (redraws_setStyle h style).trans (redraws_hide (drawnIn_setStyle h style))

end Label

end TemplateFolding
