import TemplateFolding.Proofs.DrawnFolds
import TemplateFolding.Proofs.Notifications

/-!
# Runs of the editor

`EditorCall` lists what can be asked of an editor, and an editor is `Reachable` when a sequence of
such calls leads to it from a text without folds, markers and decorations. Every reachable editor is
`Kept`: its numbers are all below the next one, its queue has one notification of a marker at most,
and its folds and markers stop no earlier than they start.
-/

namespace TemplateFolding

open Text Point

/-- One thing that is asked of an editor. -/
inductive EditorCall where
  | insert (p : Point) (text : Text)
  | replace (r : Range) (text : Text)
  | setCursor (p : Point)
  | fold (r : Range)
  | destroyFold (id : FoldId)
  | unfoldRow (row : Nat)
  | createMarker (r : Range)
  | destroyMarker (id : MarkerId)
  | decorate (marker : MarkerId) (overlay : Overlay)
  | setStyle (id : DecorationId) (style : String)
  | destroyDecoration (id : DecorationId)
  | configure (settings : Settings)
  | drainMarkerChanges
  | drainCursorMoves

/-- The editor after a call. -/
def EditorCall.run (e : Editor) : EditorCall → Editor
  | insert p text => (e.insert p text).2
  | replace r text => (e.replace r text).2
  | setCursor p => e.setCursor p
  | fold r => (e.fold r).2
  | destroyFold id => e.destroyFold id
  | unfoldRow row => e.unfoldRow row
  | createMarker r => (e.createMarker r).2
  | destroyMarker id => e.destroyMarker id
  | decorate marker overlay => (e.decorate marker overlay).2
  | setStyle id style => e.setStyle id style
  | destroyDecoration id => e.destroyDecoration id
  | configure settings => { e with settings }
  | drainMarkerChanges => e.drainMarkerChanges.2
  | drainCursorMoves => e.drainCursorMoves.2

namespace Editor

/-- The editor after calls made one after the other. -/
def runAll (e : Editor) (calls : List EditorCall) : Editor :=
  calls.foldl EditorCall.run e

/-- Whether calls lead to the editor from a text that has just been opened. -/
def Reachable (e : Editor) : Prop :=
  ∃ text settings calls, e = runAll { text, settings } calls

/-- What a replacement of the text of a range does to positions. -/
def editOf (e : Editor) (r : Range) (inserted : Text) : Edit :=
  ⟨(e.clipRange r).start, (e.clipRange r).stop, pointAfter (e.clipRange r).start inserted⟩

lemma replace_eq (e : Editor) (r : Range) (inserted : Text) :
    (e.replace r inserted).2 = e.track (·.splice (e.editOf r inserted) inserted) := rfl

end Editor

/-! ## Tracked ranges stay in order -/

namespace Edit

variable {edit : Edit} {p q : Point} {r : Range}

/-- Behind the replaced text, an edit moves points without changing their order. -/
lemma shift_le_shift (hp : edit.oldStop ≤ p) (hpq : p ≤ q) : edit.shift p ≤ edit.shift q := by
  rw [le_iff] at *
  simp only [shift]
  split_ifs <;> dsimp only <;> omega

/-- What stood behind the replaced text stands behind the new text. -/
lemma newStop_le_shift (hp : edit.oldStop ≤ p) : edit.newStop ≤ edit.shift p := by
  rw [le_iff] at *
  simp only [shift]
  split_ifs <;> dsimp only <;> omega

end Edit

/-- The range between two points has its ends in order, whichever way round they are given. -/
lemma Range.between_ordered (p q : Point) : (Range.between p q).start ≤ (Range.between p q).stop := by
  rw [Range.between]
  split_ifs with h
  · exact h
  · exact le_of_lt (Point.not_le.1 h)

/-- A range whose ends are in order is mapped to one whose ends are in order. -/
lemma Edit.mapRange_ordered (edit : Edit) {r : Range} (h : r.start ≤ r.stop) :
    (edit.mapRange r).start ≤ (edit.mapRange r).stop := by
  rw [mapRange]
  split_ifs with h₁ h₂
  · exact shift_le_shift h₁ h
  · exact h
  all_goals exact Range.between_ordered _ _

namespace Editor

/-! ## What every call keeps -/

/-- The numbers in use are below the next one, no marker has two notifications in the queue, and
tracked ranges are in order. -/
structure Kept (e : Editor) : Prop where
  folds : e.folds.Below e.nextId
  markers : e.markers.Below e.nextId
  decorations : e.decorations.Below e.nextId
  pending : ∀ c ∈ e.markerChanges, c.marker < e.nextId
  distinct : e.markerChanges.Pairwise fun c d => c.marker ≠ d.marker
  foldOrder : ∀ id r, e.folds.get? id = some r → r.start ≤ r.stop
  markerOrder : ∀ id m, e.markers.get? id = some m → m.range.start ≤ m.range.stop

variable {e : Editor}

/-- Tracking a change keeps an editor in order, if the change itself does and takes no number back.
-/
lemma Kept.track (h : e.Kept) (change : Editor → Editor) (hc : (change e).Kept)
    (hn : e.nextId ≤ (change e).nextId) : (track change e).Kept where
  folds := hc.folds
  markers := hc.markers
  decorations := hc.decorations
  pending := by
    intro c hmem
    rcases MarkerChange.marker_mem_foldl_enqueue hmem with ⟨d, hd, hdc⟩ | ⟨d, hd, hdc⟩
    · rw [← hdc]
      exact hc.pending d hd
    · obtain ⟨m, hm, -⟩ := mem_changesSince hd
      rw [← hdc]
      exact Nat.lt_of_lt_of_le (h.markers _ _ hm) hn
  distinct := MarkerChange.pairwise_foldl_enqueue hc.distinct _
  foldOrder := hc.foldOrder
  markerOrder := hc.markerOrder

/-- Replacing text keeps an editor in order: folds and markers are mapped, and no number is used. -/
lemma Kept.splice (h : e.Kept) (edit : Edit) (inserted : Text) : (e.splice edit inserted).Kept where
  folds := (h.folds.filter _).map _
  markers := h.markers.map _
  decorations := h.decorations
  pending := h.pending
  distinct := h.distinct
  foldOrder := by
    intro id r hr
    simp only [Editor.splice, Table.get?_map, Table.get?_filter, Option.map_eq_some_iff,
      Option.filter_eq_some_iff] at hr
    obtain ⟨r', ⟨hr', -⟩, rfl⟩ := hr
    exact edit.mapRange_ordered (h.foldOrder id r' hr')
  markerOrder := by
    intro id m hm
    simp only [Editor.splice, Table.get?_map, Option.map_eq_some_iff] at hm
    obtain ⟨m', hm', rfl⟩ := hm
    rw [Marker.afterEdit]
    split
    · exact edit.mapRange_ordered (h.markerOrder id m' hm')
    · exact h.markerOrder id m' hm'

lemma Kept.replace (h : e.Kept) (r : Range) (inserted : Text) : (e.replace r inserted).2.Kept := by
  rw [replace_eq]
  exact h.track (·.splice _ inserted) (h.splice _ _) (Nat.le_refl _)

/-- Numbers may be handed out without being used. -/
lemma Kept.raise (h : e.Kept) {n : Nat} (hn : e.nextId ≤ n) :
    ({ e with nextId := n } : Editor).Kept where
  folds := h.folds.mono hn
  markers := h.markers.mono hn
  decorations := h.decorations.mono hn
  pending := fun c hc => Nat.lt_of_lt_of_le (h.pending c hc) hn
  distinct := h.distinct
  foldOrder := h.foldOrder
  markerOrder := h.markerOrder

/-- A fold gets the next number, so its entry stays below the numbers to come. -/
lemma Kept.fold (h : e.Kept) (r : Range) : (e.fold r).2.Kept := by
  have hnext := h.raise (Nat.le_succ e.nextId)
  refine hnext.track (fun d => { d with folds := d.folds.insert _ _ }) ?_ (Nat.le_refl _)
  refine { hnext with folds := hnext.folds.insert (Nat.lt_succ_self _), foldOrder := ?_ }
  intro id s hs
  simp only [Table.get?_insert] at hs
  split_ifs at hs
  · rw [← Option.some.inj hs]
    exact Range.between_ordered _ _
  · exact h.foldOrder id s hs

lemma Kept.filterFolds (h : e.Kept) (keep : Nat → Range → Bool) :
    ({ e with folds := e.folds.filter keep } : Editor).Kept :=
  { h with
    folds := h.folds.filter _
    foldOrder := fun id r hr => by
      simp only [Table.get?_filter, Option.filter_eq_some_iff] at hr
      exact h.foldOrder id r hr.1 }

lemma Kept.destroyFold (h : e.Kept) (id : FoldId) : (e.destroyFold id).Kept := by
  rw [Editor.destroyFold]
  split
  · exact h.track (fun d => { d with folds := d.folds.erase id }) (h.filterFolds _) (Nat.le_refl _)
  · exact h

/-- A marker gets the next number, so its entry stays below the numbers to come. -/
lemma Kept.createMarker (h : e.Kept) (r : Range) : (e.createMarker r).2.Kept := by
  have hnext := h.raise (Nat.le_succ e.nextId)
  refine { hnext with markers := hnext.markers.insert (Nat.lt_succ_self _), markerOrder := ?_ }
  intro id m hm
  simp only [Editor.createMarker, Table.get?_insert] at hm
  split_ifs at hm
  · rw [← Option.some.inj hm]
    exact Range.between_ordered _ _
  · exact h.markerOrder id m hm

/-- Destroying a marker keeps an editor in order. Its decorations and what is queued for it go as
well. -/
lemma Kept.destroyMarker (h : e.Kept) (id : MarkerId) : (e.destroyMarker id).Kept where
  folds := h.folds
  markers := h.markers.filter _
  decorations := h.decorations.filter _
  pending := fun c hc => h.pending c (List.mem_filter.1 hc).1
  distinct := h.distinct.filter _
  foldOrder := h.foldOrder
  markerOrder := by
    intro k m hm
    simp only [Editor.destroyMarker, Table.get?_erase] at hm
    split_ifs at hm
    exact h.markerOrder k m hm

/-- A decoration gets the next number, whatever number it hangs on. -/
lemma Kept.decorate (h : e.Kept) (marker : MarkerId) (overlay : Overlay) :
    (e.decorate marker overlay).2.Kept :=
  have hnext := h.raise (Nat.le_succ e.nextId)
  { hnext with decorations := hnext.decorations.insert (Nat.lt_succ_self _) }

/-- Every call keeps an editor in order. -/
lemma Kept.run (h : e.Kept) (c : EditorCall) : (c.run e).Kept := by
  cases c with
  | insert p text => exact h.replace _ _
  | replace r text => exact h.replace _ _
  | setCursor p =>
    exact h.track (fun d => { d with cursor := d.text.clip p }) { h with } (Nat.le_refl _)
  | fold r => exact h.fold r
  | destroyFold id => exact h.destroyFold id
  | unfoldRow row =>
    exact h.track (fun d => { d with folds := d.folds.filter _ }) (h.filterFolds _) (Nat.le_refl _)
  | createMarker r => exact h.createMarker r
  | destroyMarker id => exact h.destroyMarker id
  | decorate marker overlay => exact h.decorate marker overlay
  | setStyle id style => exact { h with decorations := h.decorations.adjust _ }
  | destroyDecoration id => exact { h with decorations := h.decorations.filter _ }
  | configure settings => exact { h with }
  | drainMarkerChanges =>
    exact { h with
      pending := by simp [EditorCall.run, Editor.drainMarkerChanges]
      distinct := List.Pairwise.nil }
  | drainCursorMoves => exact { h with }

lemma Kept.runAll (h : e.Kept) (calls : List EditorCall) : (e.runAll calls).Kept := by
  induction calls generalizing e with
  | nil => exact h
  | cons c calls ih => exact ih (h.run c)

/-- No call takes a number back. -/
lemma nextId_le_run (e : Editor) (call : EditorCall) : e.nextId ≤ (call.run e).nextId := by
  cases call with
  | destroyFold id =>
    show e.nextId ≤ (e.destroyFold id).nextId
    rw [destroyFold]
    split <;> exact Nat.le_refl _
  | fold r => exact Nat.le_succ _
  | createMarker r => exact Nat.le_succ _
  | decorate marker overlay => exact Nat.le_succ _
  | _ => exact Nat.le_refl _

lemma nextId_le_runAll (e : Editor) (calls : List EditorCall) : e.nextId ≤ (e.runAll calls).nextId := by
  induction calls generalizing e with
  | nil => exact Nat.le_refl _
  | cons call calls ih => exact Nat.le_trans (e.nextId_le_run call) (ih (call.run e))

/-- A new editor is in order: it holds nothing at all. -/
lemma kept_new (text : Text) (settings : Settings) : ({ text, settings } : Editor).Kept where
  folds := fun _ _ h => by simp at h
  markers := fun _ _ h => by simp at h
  decorations := fun _ _ h => by simp at h
  pending := by simp
  distinct := List.Pairwise.nil
  foldOrder := fun _ _ h => by simp at h
  markerOrder := fun _ _ h => by simp at h

/-- Every reachable editor is kept. -/
theorem Reachable.kept (h : e.Reachable) : e.Kept := by
  obtain ⟨text, settings, calls, rfl⟩ := h
  exact (kept_new text settings).runAll calls

end Editor

end TemplateFolding
