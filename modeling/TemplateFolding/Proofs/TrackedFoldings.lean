import TemplateFolding.Proofs.Draining
import TemplateFolding.Proofs.DrawnLabels

/-!
# What is known of the foldings at every moment

The foldings learn of changes from notifications, and between a change and its notification what
they know is out of date. `Tracked` says what holds nevertheless: the queue accounts for the marker
of every live folding since the extent at which it was last seen, and the label and the row index
agree with that extent. It is kept by everything the host does, by every notification that is
applied, and by making and taking down foldings.

Notifications are drained before they are applied. The invariant is therefore stated with the
notifications that have been drained and not applied yet.
-/

namespace TemplateFolding

/-! ## The row index -/

namespace RowIndex

variable {ix : RowIndex} {id k : FoldingId} {row r : Nat}

/-- The two tables of the index agree. -/
def Consistent (ix : RowIndex) : Prop :=
  ∀ id row, id ∈ ix.onRow row ↔ ix.rowOf.get? id = some row

lemma consistent_empty : empty.Consistent := by
  intro id row
  simp [onRow, empty, Table.keys, Table.empty, Table.get?, Table.find?]

/-- What stands on a row is what is filed under it. -/
lemma mem_onRow : k ∈ ix.onRow r ↔ ∃ ids, ix.rows.get? r = some ids ∧ ∃ v, ids.get? k = some v := by
  rw [onRow, Table.mem_keys_iff]
  cases ix.rows.get? r <;> simp

/-- Removal of a folding that is on no row changes nothing. -/
lemma remove_of_none (h : ix.rowOf.get? id = none) : ix.remove id = ix := by
  rw [remove, h]

/-- A folding that is removed has no row any more, and the others keep theirs. -/
lemma get?_rowOf_remove (ix : RowIndex) (id k : FoldingId) :
    (ix.remove id).rowOf.get? k = if k = id then none else ix.rowOf.get? k := by
  rw [remove]
  split
  · rename_i hnone
    split_ifs with hk
    · rw [hk, hnone]
    · rfl
  · exact Table.get?_erase _ _ _

/-- Removal takes the folding out of the set on its row. A set that loses its last folding goes. -/
lemma get?_rows_remove (h : ix.rowOf.get? id = some row) (r : Nat) :
    (ix.remove id).rows.get? r =
      if r = row then ((ix.rows.get? r).map (·.erase id)).filter (!·.entries.isEmpty)
      else ix.rows.get? r := by
  rw [remove, h]
  dsimp only
  cases hids : ix.rows.get? row with
  | none => split_ifs with hr <;> simp [hr, hids]
  | some ids =>
    dsimp only
    by_cases hr : r = row
    · split_ifs with hempty <;> simp [hr, hids, Option.filter_some, hempty]
    · rw [if_neg hr]
      split_ifs
      · exact Table.get?_erase_of_ne _ hr
      · exact Table.get?_insert_of_ne _ _ hr

/-- Removal takes the folding off its row. -/
lemma mem_onRow_remove (h : ix.rowOf.get? id = some row) :
    k ∈ (ix.remove id).onRow r ↔ k ∈ ix.onRow r ∧ (r = row → k ≠ id) := by
  rw [mem_onRow, mem_onRow, get?_rows_remove h]
  split_ifs with hrow
  · cases ix.rows.get? r with
    | none => simp [hrow]
    | some ids =>
      have hkeys : (∃ v, (ids.erase id).get? k = some v) ↔ (∃ v, ids.get? k = some v) ∧ k ≠ id := by
        rw [Table.get?_erase]
        split_ifs with hk <;> simp [hk]
      -- a set in which a folding is left is not empty
      have hleft : ∀ v, (ids.erase id).get? k = some v → (ids.erase id).entries ≠ [] :=
        fun v hv => List.ne_nil_of_mem (Table.mem_entries_iff.2 hv)
      simpa [hrow, Option.filter_eq_some_iff, ← hkeys] using hleft
  · simp [hrow]

/-- Removing a folding leaves rows and foldings in agreement. -/
lemma Consistent.remove (h : ix.Consistent) (id : FoldingId) : (ix.remove id).Consistent := by
  intro k r
  rw [get?_rowOf_remove]
  cases hrow : ix.rowOf.get? id with
  | none =>
    rw [remove_of_none hrow, h k r]
    split_ifs with hk
    · simp [hk, hrow]
    · rfl
  | some row =>
    rw [mem_onRow_remove hrow, h k r]
    split_ifs with hk
    · rw [hk, hrow]
      simp [eq_comm]
    · simp [hk]

/-- A folding that is inserted has the row it is inserted on, and the others keep theirs. -/
lemma get?_rowOf_insert (ix : RowIndex) (id : FoldingId) (row : Nat) (k : FoldingId) :
    (ix.insert id row).rowOf.get? k = if k = id then some row else ix.rowOf.get? k := by
  have hstep : (ix.insert id row).rowOf.get? k =
      if k = id then some row else (ix.remove id).rowOf.get? k := Table.get?_insert _ _ _ _
  rw [hstep, get?_rowOf_remove]
  split_ifs <;> rfl

/-- Inserting a folding takes it off the row it was on, so rows and foldings agree. -/
lemma Consistent.insert (h : ix.Consistent) (id : FoldingId) (row : Nat) :
    (ix.insert id row).Consistent := by
  have hrem := h.remove id
  intro k r
  have hmem : k ∈ (ix.insert id row).onRow r ↔
      (r = row ∧ k = id) ∨ k ∈ (ix.remove id).onRow r := by
    simp only [mem_onRow, RowIndex.insert, Table.get?_insert]
    by_cases hr : r = row
    · subst hr
      by_cases hk : k = id
      · simp [hk]
      · cases (ix.remove id).rows.get? r <;> simp [hk, Table.get?_insert_of_ne]
    · simp [hr]
  rw [hmem, hrem k r, get?_rowOf_remove, get?_rowOf_insert]
  by_cases hk : k = id
  · simp [hk, eq_comm]
  · simp [hk]

end RowIndex

/-! ## The invariant -/

/-- The account of a marker when notifications have been drained. One that has been drained comes
before those in the queue, and after one that says that the marker is not valid nothing counts. -/
def Editor.TracksVia (e : Editor) (drained : List MarkerChange) (k : MarkerId) (known : Range) :
    Prop :=
  match MarkerChange.of? k drained with
  | none => e.Tracks k known
  | some c => c.old = known ∧ c.textChanged = !c.valid ∧ (c.valid = true → e.Tracks k c.new)

namespace FoldedEditor

/-- A folding looks as one that is visible at an extent. -/
def LooksVisible (s : FoldedEditor) (id : FoldingId) (f : Folding) (extent : Range) : Prop :=
  f.initialScreen.isTranslationOf extent = true ∧ f.label.isHidden = false ∧
    s.highlighter.index.rowOf.get? id = some extent.start.row

/-- A folding looks as one that is collapsed to a point. -/
def LooksCollapsed (s : FoldedEditor) (id : FoldingId) (f : Folding) (extent : Range) : Prop :=
  extent.isPoint = true ∧ f.label.isHidden = true ∧
    s.highlighter.index.rowOf.get? id = none ∧ f.info.highlighted = false

/-- A folding looks as it should at an extent. One whose first extent was a point has its label drawn
at every extent. -/
def Looks (s : FoldedEditor) (id : FoldingId) (f : Folding) (extent : Range) : Prop :=
  s.LooksVisible id f extent ∨ f.initialScreen.isPoint = false ∧ s.LooksCollapsed id f extent

/-- A folding is up to date with the extent `known` of its marker, and what has happened to the
marker since is accounted for. -/
structure Follows (s : FoldedEditor) (drained : List MarkerChange) (id : FoldingId) (f : Folding)
    (known : Range) : Prop where
  tracks : s.editor.TracksVia drained f.marker known
  label : f.label.marker = f.marker
  drawn : f.label.DrawnIn s.editor
  looks : s.Looks id f known

/-- Every folding follows its marker, apart from notifications that have been drained and not
applied yet. -/
structure Tracked (s : FoldedEditor) (drained : List MarkerChange) : Prop where
  tidy : s.editor.Tidy
  owners : ∀ k id, s.owners.get? k = some id ↔ ∃ f, s.live.get? id = some f ∧ f.marker = k
  index : s.highlighter.index.Consistent
  follows : ∀ id f, s.live.get? id = some f → ∃ known, s.Follows drained id f known

variable {s s' : FoldedEditor} {drained drained' : List MarkerChange} {id : FoldingId}
  {f f' : Folding} {known : Range}

/-- A folding goes on following its marker, as long as the marker, what is drained for it and the
row of the folding are the same. -/
lemma Follows.frame (h : s.Follows drained id f known)
    (hs : s.editor.Spares s'.editor f.marker)
    (hd : MarkerChange.of? f.marker drained' = MarkerChange.of? f.marker drained)
    (hr : s'.highlighter.index.rowOf.get? id = s.highlighter.index.rowOf.get? id) :
    s'.Follows drained' id f known where
  tracks := by
    have ht := h.tracks
    unfold Editor.TracksVia at ht ⊢
    rw [hd]
    split
    · rename_i hnone
      rw [hnone] at ht
      exact hs.tracks _ ht
    · rename_i c hsome
      rw [hsome] at ht
      exact ⟨ht.1, ht.2.1, fun hv => hs.tracks _ (ht.2.2 hv)⟩
  label := h.label
  drawn := h.drawn.congr fun d x hm => hs.decorations d x (hm.trans h.label)
  looks := by
    unfold Looks LooksVisible LooksCollapsed
    rw [hr]
    exact h.looks

lemma Tracked.owner (h : s.Tracked drained) (hf : s.live.get? id = some f) :
    s.owners.get? f.marker = some id :=
  (h.owners _ _).2 ⟨f, hf, rfl⟩

/-- No two foldings share a marker. -/
lemma Tracked.marker_ne (h : s.Tracked drained) {id' : FoldingId}
    (hf : s.live.get? id = some f) (hf' : s.live.get? id' = some f') (hne : id' ≠ id) :
    f'.marker ≠ f.marker := by
  intro heq
  have hown := h.owner hf'
  rw [heq, h.owner hf] at hown
  exact hne (Option.some.inj hown).symm

/-! ## The host -/

/-- What the host may ask of the editor: it leaves the markers of the foldings and what is drawn at
them alone, it draws at no marker whose number has not been handed out yet (that number may become
the marker of a folding), and it takes no notifications out of the queues. -/
def Permits (s : FoldedEditor) : EditorCall → Prop
  | .destroyMarker id => s.owners.get? id = none
  | .decorate marker _ => s.owners.get? marker = none ∧ marker < s.editor.nextId
  | .setStyle id _ => ∀ x, s.editor.decorations.get? id = some x → s.owners.get? x.marker = none
  | .destroyDecoration id =>
    ∀ x, s.editor.decorations.get? id = some x → s.owners.get? x.marker = none
  | .drainMarkerChanges => False
  | .drainCursorMoves => False
  | _ => True

/-- What the host is permitted leaves the markers of the foldings alone. -/
lemma Permits.leavesAlone {call : EditorCall} (hp : s.Permits call) {k : MarkerId}
    (hk : s.owners.get? k = some id) : call.LeavesAlone s.editor k := by
  have hne : ∀ k', s.owners.get? k' = none → k' ≠ k := by
    rintro k' hnone rfl
    rw [hk] at hnone
    exact absurd hnone (by simp)
  cases call with
  | destroyMarker id => exact hne id hp
  | decorate marker overlay => exact hne marker hp.1
  | setStyle id style => exact fun x hx => hne _ (hp x hx)
  | destroyDecoration id => exact fun x hx => hne _ (hp x hx)
  | drainMarkerChanges => exact hp
  | _ => trivial

/-- The host does not get between the foldings and their markers. -/
theorem Tracked.host (h : s.Tracked drained) (call : EditorCall) (hp : s.Permits call) :
    (s.host fun e => call.run e).Tracked drained where
  tidy := by
    apply h.tidy.run
    rintro marker overlay rfl
    exact hp.2
  owners := h.owners
  index := h.index
  follows := by
    intro id f hf
    obtain ⟨known, hfol⟩ := h.follows id f hf
    have hspare := Editor.Spares.run h.tidy.toKept (hp.leavesAlone (h.owner hf))
    exact ⟨known, hfol.frame hspare rfl rfl⟩

/-! ## Changes to one folding -/

/-- One folding is replaced by another on the same marker, and the others do not notice. -/
lemma Tracked.update (h : s.Tracked drained) (hf : s.live.get? id = some f)
    (hlive : s'.live = s.live.insert id f') (howners : s'.owners = s.owners)
    (hmarker : f'.marker = f.marker) (htidy : s'.editor.Tidy)
    (hindex : s'.highlighter.index.Consistent)
    (hspare : ∀ k, k ≠ f.marker → s.editor.Spares s'.editor k)
    (hrow : ∀ j, j ≠ id →
      s'.highlighter.index.rowOf.get? j = s.highlighter.index.rowOf.get? j)
    (hdrained : ∀ k, k ≠ f.marker → MarkerChange.of? k drained' = MarkerChange.of? k drained)
    (hnew : s'.Follows drained' id f' known) : s'.Tracked drained' where
  tidy := htidy
  owners := by
    intro k j
    rw [howners, h.owners k j, hlive, Table.get?_insert]
    split_ifs with hj
    · rw [hj, hf]
      simp [hmarker]
    · rfl
  index := hindex
  follows := by
    intro j g hg
    rw [hlive, Table.get?_insert] at hg
    split_ifs at hg with hj
    · rw [hj, ← Option.some.inj hg]
      exact ⟨known, hnew⟩
    · have hne := h.marker_ne hf hg hj
      obtain ⟨known, hfol⟩ := h.follows j g hg
      exact ⟨known, hfol.frame (hspare _ hne) (hdrained _ hne) (hrow j hj)⟩

/-- The folds of a folding are taken down without touching the account of any marker. -/
lemma spares_destroyFolds (p : PartialFold) (e : Editor) (k : MarkerId) :
    e.Spares (p.destroy e) k := by
  unfold PartialFold.destroy
  generalize p.folds = ids
  induction ids generalizing e with
  | nil => exact Editor.Spares.refl e k
  | cons id ids ih => exact (Editor.spares_destroyFold e k id).trans (ih _)

lemma tidy_destroyFolds (p : PartialFold) {e : Editor} (h : e.Tidy) : (p.destroy e).Tidy := by
  unfold PartialFold.destroy
  generalize p.folds = ids
  induction ids generalizing e with
  | nil => exact h
  | cons id ids ih => exact ih (h.destroyFold id)

/-- Taking one folding down leaves the others in step. -/
lemma Tracked.destroyFolding (h : s.Tracked drained) (hf : s.live.get? id = some f)
    (hdrained : ∀ k, k ≠ f.marker → MarkerChange.of? k drained' = MarkerChange.of? k drained) :
    (s.destroyFolding id).Tracked drained' := by
  obtain ⟨known, hfol⟩ := h.follows id f hf
  unfold FoldedEditor.destroyFolding
  rw [hf]
  dsimp only
  have hspare : ∀ k, k ≠ f.marker → s.editor.Spares
      ((f.folds.destroy (f.label.destroy s.editor)).destroyMarker f.marker) k := by
    intro k hk
    have hlabel : s.editor.Spares (f.label.destroy s.editor) k :=
      (f.label.redraws_hide hfol.drawn).spares (by rwa [hfol.label])
    exact (hlabel.trans (spares_destroyFolds f.folds _ k)).trans
      (Editor.spares_destroyMarker _ hk)
  have htidy : ((f.folds.destroy (f.label.destroy s.editor)).destroyMarker f.marker).Tidy := by
    have hfolds := tidy_destroyFolds f.folds (Label.tidy_hide (l := f.label) h.tidy)
    show (EditorCall.run _ (.destroyMarker f.marker)).Tidy
    exact hfolds.run (by simp)
  refine ⟨htidy, ?_, h.index.remove id, ?_⟩
  · -- the marker loses its owner, and no other folding stands on it
    intro k j
    rw [Table.get?_erase, Table.get?_erase]
    by_cases hk : k = f.marker
    · rw [if_pos hk]
      by_cases hj : j = id
      · simp [hj]
      · rw [if_neg hj, hk]
        constructor
        · intro hnone
          exact absurd hnone (by simp)
        · rintro ⟨g, hg, hgm⟩
          exact absurd hgm (h.marker_ne hf hg hj)
    · rw [if_neg hk, h.owners k j]
      by_cases hj : j = id
      · rw [if_pos hj, hj, hf]
        constructor
        · rintro ⟨g, hg, hgm⟩
          rw [← Option.some.inj hg] at hgm
          exact absurd hgm.symm hk
        · rintro ⟨g, hg, -⟩
          exact absurd hg (by simp)
      · rw [if_neg hj]
  · -- the other foldings stand on markers that are spared
    intro j g hg
    rw [Table.get?_erase] at hg
    split_ifs at hg with hj
    have hne := h.marker_ne hf hg hj
    obtain ⟨known, hgfol⟩ := h.follows j g hg
    refine ⟨known, hgfol.frame (hspare _ hne) (hdrained _ hne) ?_⟩
    exact (RowIndex.get?_rowOf_remove _ _ _).trans (if_neg hj)

/-! ## Notifications of markers -/

lemma isTranslationOf_self (r : Range) : r.isTranslationOf r = true := by
  simp [Range.isTranslationOf, Point.deltaTo]

/-- A change of a marker that is still valid, with the folding it belongs to. -/
structure Applies (s : FoldedEditor) (c : MarkerChange) (rest : List MarkerChange)
    (id : FoldingId) (f : Folding) : Prop where
  live : s.live.get? id = some f
  marker : f.marker = c.marker
  follows : s.Follows (c :: rest) id f c.old
  tracks : s.editor.Tracks f.marker c.new
  gone : MarkerChange.of? f.marker rest = none

variable {c : MarkerChange} {rest : List MarkerChange}

/-- What the application of the change has to establish. -/
lemma Applies.follows_rest (h : s.Applies c rest id f) (htracks : s'.editor.Tracks f.marker c.new)
    (hmarker : f'.marker = f.marker) (hlabel : f'.label.marker = f.label.marker)
    (hdrawn : f'.label.DrawnIn s'.editor)
    (hlooks : s'.Looks id f' c.new) :
    s'.Follows rest id f' c.new where
  tracks := by
    unfold Editor.TracksVia
    rw [hmarker, h.gone]
    exact htracks
  label := by rw [hlabel, hmarker, h.follows.label]
  drawn := hdrawn
  looks := hlooks

lemma of?_cons_of_ne {k : MarkerId} (hk : k ≠ c.marker) :
    MarkerChange.of? k rest = MarkerChange.of? k (c :: rest) := by
  rw [MarkerChange.of?_cons, if_neg (Ne.symm hk)]

/-- A folding that was visible and has moved is still tracked. -/
lemma Tracked.followTranslated (h : s.Tracked (c :: rest)) (ha : s.Applies c rest id f)
    (hnew : f.initialScreen.isTranslationOf c.new = true) (hold : c.old.isPoint = false) :
    (s.followTranslated id f c.new.start.row).Tracked rest := by
  refine h.update ha.live rfl rfl rfl h.tidy (h.index.insert id _)
    (fun k _ => Editor.Spares.refl _ k) ?_ ?_
    (ha.follows_rest ha.tracks rfl rfl ha.follows.drawn ?_)
  · intro j hj
    exact (RowIndex.get?_rowOf_insert _ _ _ _).trans (if_neg hj)
  · intro k hk
    exact of?_cons_of_ne (ha.marker ▸ hk)
  · -- the label is drawn already: before the translation the extent was no point
    left
    rcases ha.follows.looks with hlook | ⟨-, hlook⟩
    · exact ⟨hnew, hlook.2.1, (RowIndex.get?_rowOf_insert _ _ _ _).trans (if_pos rfl)⟩
    · rw [LooksCollapsed, hold] at hlook
      exact absurd hlook.1 (by simp)

/-- A folding that has come into view is tracked again as visible. -/
lemma Tracked.followVisible (h : s.Tracked (c :: rest)) (ha : s.Applies c rest id f)
    (hnew : f.initialScreen.isTranslationOf c.new = true) :
    (s.followVisible id f c.new.start.row).Tracked rest := by
  have hlabel := ha.follows.label
  have hredraw := f.label.redraws_draw h.tidy.toKept
  have hmarker : f.label.marker < s.editor.nextId := by
    obtain ⟨m, hm, -⟩ := ha.tracks
    rw [hlabel]
    exact h.tidy.markers _ m hm
  refine h.update ha.live rfl rfl rfl (Label.tidy_draw h.tidy hmarker) (h.index.insert id _)
    (fun k hk => hredraw.spares (by rwa [hlabel])) ?_ ?_
    (ha.follows_rest (hredraw.tracks ha.tracks) rfl ?_ (Label.drawnIn_draw ha.follows.drawn) ?_)
  · intro j hj
    exact (RowIndex.get?_rowOf_insert _ _ _ _).trans (if_neg hj)
  · intro k hk
    exact of?_cons_of_ne (ha.marker ▸ hk)
  · exact Label.marker_draw _ _
  · left
    exact ⟨hnew, Label.isHidden_draw _ _,
      (RowIndex.get?_rowOf_insert _ _ _ _).trans (if_pos rfl)⟩

/-- A folding that has gone out of view is tracked as hidden. -/
lemma Tracked.followHidden (h : s.Tracked (c :: rest)) (ha : s.Applies c rest id f)
    (hnew : c.new.isPoint = true) (hp : f.initialScreen.isPoint = false) :
    (s.followHidden id f).Tracked rest := by
  have hlabel := ha.follows.label
  have hstyled := Label.drawnIn_setStyle ha.follows.drawn .normal
  have hredraw := Label.redraws_setStyle_hide ha.follows.drawn .normal
  refine h.update ha.live rfl rfl rfl (Label.tidy_hide (Label.tidy_setStyle h.tidy .normal))
    (h.index.remove id) (fun k hk => hredraw.spares (by rwa [hlabel])) ?_ ?_
    (ha.follows_rest (hredraw.tracks ha.tracks) rfl ?_ (Label.drawnIn_hide hstyled) ?_)
  · intro j hj
    exact (RowIndex.get?_rowOf_remove _ _ _).trans (if_neg hj)
  · intro k hk
    exact of?_cons_of_ne (ha.marker ▸ hk)
  · exact Label.marker_hide _ _
  · right
    exact ⟨hp, hnew, Label.isHidden_hide _ _,
      (RowIndex.get?_rowOf_remove _ _ _).trans (if_pos rfl), rfl⟩

/-- A point is a translation of every other. -/
lemma isTranslationOf_of_isPoint {r s : Range} (hr : r.isPoint = true) (hs : s.isPoint = true) :
    r.isTranslationOf s = true := by
  rw [Range.isPoint, beq_iff_eq] at hr hs
  rw [Range.isTranslationOf, hr, hs, beq_iff_eq]

/-- What each outcome of the comparison says of the change. -/
lemma classify_spec (old new initial : Range) (valid textChanged : Bool) :
    match Transition.classify old new initial valid textChanged with
    | .translated => valid = true ∧ initial.isTranslationOf new = true ∧ old.isPoint = false
    | .becameVisible => valid = true ∧ initial.isTranslationOf new = true
    | .becameHidden => valid = true ∧ new.isPoint = true ∧ initial.isPoint = false
    | .invalidated => valid = false
    | .destructive => initial.isTranslationOf new = false := by
  have hpoints := @isTranslationOf_of_isPoint initial new
  unfold Transition.classify
  split_ifs <;> simp_all

/-- A notification that concerns a folding is about its marker. -/
lemma Tracked.marker_of_concerns {outcome : Transition} (h : s.Tracked drained)
    (hc : s.Concerns c id f outcome) : f.marker = c.marker := by
  obtain ⟨g, hg, hmarker⟩ := (h.owners _ _).1 hc.owner
  rw [Option.some.inj (hc.live.symm.trans hg)]
  exact hmarker

/-- A valid notification applies to the folding that it concerns. -/
lemma Tracked.applies {outcome : Transition} (h : s.Tracked (c :: rest))
    (hd : (c :: rest).Pairwise fun c d => c.marker ≠ d.marker) (hc : s.Concerns c id f outcome)
    (hvalid : c.valid = true) : s.Applies c rest id f := by
  have hmarker := h.marker_of_concerns hc
  obtain ⟨known, hfol⟩ := h.follows id f hc.live
  have htracks := hfol.tracks
  unfold Editor.TracksVia at htracks
  rw [MarkerChange.of?_cons, if_pos hmarker.symm] at htracks
  obtain ⟨rfl, -, hnew⟩ := htracks
  -- no second notification of the same marker is waiting behind this one
  refine ⟨hc.live, hmarker, hfol, hnew hvalid, MarkerChange.of?_eq_none fun d hmem hdm => ?_⟩
  exact (List.pairwise_cons.1 hd).1 d hmem (hmarker.symm.trans hdm.symm)

/-- Applying a notification of a marker brings its folding up to date or takes it down. -/
theorem Tracked.onMarkerChange (h : s.Tracked (c :: rest))
    (hd : (c :: rest).Pairwise fun c d => c.marker ≠ d.marker) :
    (s.onMarkerChange c).Tracked rest := by
  have hspec := fun f : Folding => classify_spec c.old c.new f.initialScreen c.valid c.textChanged
  refine onMarkerChange_elim s c ?_ ?_ ?_ ?_ ?_
  · intro hidle
    refine ⟨h.tidy, h.owners, h.index, fun id f hf => ?_⟩
    obtain ⟨known, hfol⟩ := h.follows id f hf
    have hne : f.marker ≠ c.marker := fun heq => hidle id f (heq ▸ h.owner hf) hf
    exact ⟨known, hfol.frame (Editor.Spares.refl _ _) (of?_cons_of_ne hne) rfl⟩
  · intro id f hc
    obtain ⟨hvalid, hnew, hold⟩ := hc.outcome ▸ hspec f
    exact h.followTranslated (h.applies hd hc hvalid) hnew hold
  · intro id f hc
    obtain ⟨hvalid, hnew⟩ := hc.outcome ▸ hspec f
    exact h.followVisible (h.applies hd hc hvalid) hnew
  · intro id f hc
    obtain ⟨hvalid, hnew, hfirst⟩ := hc.outcome ▸ hspec f
    exact h.followHidden (h.applies hd hc hvalid) hnew hfirst
  · intro id f outcome hc _
    exact h.destroyFolding hc.live fun k hk => of?_cons_of_ne (h.marker_of_concerns hc ▸ hk)

/-- After a drained queue has been worked through there is nothing left to be told. -/
lemma Tracked.onMarkerChanges (h : s.Tracked drained)
    (hd : drained.Pairwise fun c d => c.marker ≠ d.marker) :
    (drained.foldl FoldedEditor.onMarkerChange s).Tracked [] := by
  induction drained generalizing s with
  | nil => exact h
  | cons c rest ih => exact ih (h.onMarkerChange hd) (List.pairwise_cons.1 hd).2

/-! ## Highlighting -/

/-- Highlighting restyles labels that are drawn, and passes over the others. -/
lemma Tracked.setHighlight (h : s.Tracked []) (id : FoldingId) (on : Bool) :
    (s.setHighlight id on).Tracked [] := by
  refine setHighlight_elim s id on (fun _ => h) fun f hf hshown => ?_
  obtain ⟨known, hfol⟩ := h.follows id f hf
  have hlabel := hfol.label
  have hredraw := Label.redraws_setStyle hfol.drawn (if on then .underCursor else .normal)
  refine h.update hf rfl rfl rfl (Label.tidy_setStyle h.tidy _) h.index
    (fun k hk => hredraw.spares (by rwa [hlabel])) (fun _ _ => rfl) (fun _ _ => rfl)
    (show FoldedEditor.Follows _ _ _ _ known from ?_)
  refine ⟨hredraw.tracks hfol.tracks, hlabel, Label.drawnIn_setStyle hfol.drawn _, ?_⟩
  left
  rcases hfol.looks with hlook | ⟨-, hlook⟩
  · exact hlook
  · exact absurd (hshown.symm.trans hlook.2.1) (by simp)

/-- A move of the cursor changes highlighting alone, and the foldings are tracked as before. -/
lemma Tracked.onCursorMove (h : s.Tracked []) (m : CursorMove) : (s.onCursorMove m).Tracked [] := by
  unfold FoldedEditor.onCursorMove
  generalize s.highlighter.onCursorMove m s.rangeOf? = changes
  induction changes generalizing s with
  | nil => exact h
  | cons c changes ih =>
    cases c with
    | add id => exact ih (h.setHighlight id true)
    | remove id => exact ih (h.setHighlight id false)

/-- Moves of the cursor leave the foldings tracked. -/
lemma Tracked.onCursorMoves (h : s.Tracked []) (moves : List CursorMove) :
    (moves.foldl FoldedEditor.onCursorMove s).Tracked [] := by
  induction moves generalizing s with
  | nil => exact h
  | cons m moves ih => exact ih (h.onCursorMove m)

/-! ## Rounds -/

/-- Draining moves the notifications out of the queue and loses none. -/
lemma Tracked.drain (h : s.Tracked []) :
    ({ s with editor := { s.editor with markerChanges := [], cursorMoves := [] } } :
      FoldedEditor).Tracked s.editor.markerChanges where
  tidy := by
    have hchanges : (EditorCall.run s.editor .drainMarkerChanges).Tidy := h.tidy.run (by simp)
    show (EditorCall.run (EditorCall.run s.editor .drainMarkerChanges) .drainCursorMoves).Tidy
    exact hchanges.run (by simp)
  owners := h.owners
  index := h.index
  follows := by
    intro id f hf
    obtain ⟨known, hfol⟩ := h.follows id f hf
    refine ⟨known, ?_, hfol.label, hfol.drawn, hfol.looks⟩
    obtain ⟨m, hm, hacc⟩ := hfol.tracks
    unfold Editor.TracksVia
    unfold Editor.Accounts Editor.pending? at hacc
    split
    · rename_i hnone
      rw [hnone] at hacc
      exact ⟨m, hm, hacc⟩
    · rename_i c hsome
      rw [hsome] at hacc
      obtain ⟨hold, hvalid, htext, hnew⟩ := hacc
      refine ⟨hold, htext, fun hv => ⟨m, hm, ?_⟩⟩
      have hm' : m.valid = true := by rw [← hvalid, hv]
      exact ⟨hm', (hnew hm').symm⟩

theorem Tracked.processRound (h : s.Tracked []) : s.processRound.Tracked [] :=
  (h.drain.onMarkerChanges h.tidy.distinct).onCursorMoves s.editor.cursorMoves

lemma Tracked.processRounds (h : s.Tracked []) (rounds : Nat) :
    (FoldedEditor.processRounds rounds s).Tracked [] := by
  induction rounds generalizing s with
  | zero => exact h
  | succ rounds ih =>
    unfold FoldedEditor.processRounds
    split
    · exact ih h.processRound
    · exact h

/-- Processing leaves the foldings tracked. -/
theorem Tracked.process (h : s.Tracked []) : s.process.Tracked [] :=
  h.processRounds _

end FoldedEditor

end TemplateFolding
