import TemplateFolding.Proofs.MovedText

/-!
# Edits and the text that is tracked

Folds and markers are moved by an edit through a comparison of rows and columns, while the text is
cut and joined by character offsets. As long as no text has a lone carriage return, the two agree:
the cursor, the folds and the valid markers always stand at positions of the text, and what an edit
does not hit covers the same text after it as before.
-/

namespace TemplateFolding

open Text Point Range

/-! ## Ranges of a text -/

/-- A range between two positions of a text. -/
structure Text.Holds (t : Text) (r : Range) : Prop where
  start : t.Addressable r.start
  stop : t.Addressable r.stop
  ordered : r.start ≤ r.stop

namespace Text

variable {t t' : Text} {r r' : Range}

/-- The text of such a range can be read. -/
lemma Holds.slice? (h : t.Holds r) : t.slice? r = some (t.slice r) :=
  slice?_eq_some h.start h.stop h.ordered

/-- A range that has the same text can be addressed and has its ends in order. -/
lemma SameText.holds (h : SameText t r t' r') : t'.Holds r' :=
  ⟨h.start', h.stop', h.ordered'⟩

/-- Ranges with the same text can both be read, and read the same. -/
lemma SameText.slice? (h : SameText t r t' r') :
    ∃ inside, t.slice? r = some inside ∧ t'.slice? r' = some inside := by
  refine ⟨t.slice r, Holds.slice? ⟨h.start, h.stop, h.ordered⟩, ?_⟩
  rw [h.holds.slice?, h.same]

end Text

/-! ## One edit -/

namespace Edit

variable {t inserted : Text} {edit : Edit} {p : Point} {r : Range}

/-- A range that an edit does not hit is mapped to a range with the same text. -/
lemma Replaces.sameText_mapRange (h : Replaces t inserted edit) (ht : t.NoLoneReturn)
    (hi : inserted.NoLoneReturn) (hr : t.Holds r) (hmiss : edit.hitsInside r = false) :
    SameText t r (edit.apply t inserted) (edit.mapRange r) :=
  (h.sameText ht hi hr.start hr.stop hr.ordered hmiss).1

/-- The new text stands between the start of the edit and its new stop. -/
lemma Replaces.slice?_inserted (h : Replaces t inserted edit) (ht : t.NoLoneReturn)
    (hi : inserted.NoLoneReturn) :
    (edit.apply t inserted).slice? ⟨edit.start, edit.newStop⟩ = some inserted := by
  obtain ⟨hsa, hso⟩ := h.addressable_before ht h.start (le_refl _)
  obtain ⟨hea, heo⟩ := h.addressable_after ht hi h.oldStop (le_refl _)
  rw [shift_oldStop] at hea heo
  have hordered : edit.start ≤ edit.newStop := by
    rw [h.newStop]
    exact le_pointAfter _ _
  -- what is before the edit is as long as it was, so the new text starts at the old offset
  have hbefore : (t.take (t.offset edit.start)).length = t.offset edit.start := by
    rw [List.length_take, Nat.min_eq_left h.start.offset_le]
  have hdrop : (edit.apply t inserted).drop (t.offset edit.start) =
      inserted ++ t.drop (t.offset edit.oldStop) := by
    rw [apply, splice, List.append_assoc]
    exact List.drop_left' hbefore
  have hlength : t.offset edit.start + inserted.length +
      (t.offset edit.oldStop - t.offset edit.oldStop) - t.offset edit.start = inserted.length := by
    omega
  rw [Holds.slice? ⟨hsa, hea, hordered⟩, slice, hso, heo, hdrop, hlength, List.take_left]

/-- The cursor goes to a position of the new text. -/
lemma Replaces.addressable_mapCursor (h : Replaces t inserted edit) (ht : t.NoLoneReturn)
    (hi : inserted.NoLoneReturn) (hp : t.Addressable p) :
    (edit.apply t inserted).Addressable (edit.mapCursor p) := by
  rw [mapCursor]
  split_ifs with hbefore hafter
  · exact (h.addressable_before ht hp (le_of_lt hbefore)).1
  · exact (h.addressable_after ht hi hp hafter).1
  · -- inside the replaced text: it goes where the end of that text goes
    rw [← shift_oldStop]
    exact (h.addressable_after ht hi h.oldStop (le_refl _)).1

end Edit

namespace Editor

variable {e : Editor} {edit : Edit} {inserted : Text} {id : Nat}

lemma holds_clipRange (e : Editor) (r : Range) : e.text.Holds (e.clipRange r) where
  start := (e.replaces_editOf r []).start
  stop := (e.replaces_editOf r []).oldStop
  ordered := between_ordered _ _

/-! ## What is in its place -/

/-- The cursor, the folds and the valid markers stand at positions of a text without lone carriage
returns. -/
structure Placed (e : Editor) : Prop where
  noLoneReturn : e.text.NoLoneReturn
  cursor : e.text.Addressable e.cursor
  folds : ∀ id r, e.folds.get? id = some r → e.text.Holds r
  markers : ∀ id m, e.markers.get? id = some m → m.valid = true → e.text.Holds m.range

/-- A replacement drops the folds that it hits inside and maps the others. -/
lemma get?_folds_splice (e : Editor) (edit : Edit) (inserted : Text) (id : FoldId) :
    (e.splice edit inserted).folds.get? id =
      ((e.folds.get? id).filter fun r => !edit.hitsInside r).map edit.mapRange := by
  rw [splice, Table.get?_map, Table.get?_filter]

/-- A fold that is there after an edit covers the text of a fold that was there before. -/
lemma Placed.fold_splice (h : e.Placed) (hr : edit.Replaces e.text inserted)
    (hi : inserted.NoLoneReturn) {r' : Range}
    (hfold : (e.splice edit inserted).folds.get? id = some r') :
    ∃ r, e.folds.get? id = some r ∧ SameText e.text r (e.splice edit inserted).text r' := by
  rw [get?_folds_splice, Option.map_eq_some_iff] at hfold
  obtain ⟨r, hget, rfl⟩ := hfold
  obtain ⟨hget, hmiss⟩ := Option.filter_eq_some_iff.1 hget
  have hmiss : edit.hitsInside r = false := by simpa using hmiss
  exact ⟨r, hget, hr.sameText_mapRange h.noLoneReturn hi (h.folds id r hget) hmiss⟩

/-- A marker that is valid after an edit covers the text that it covered before. -/
lemma Placed.marker_splice (h : e.Placed) (hr : edit.Replaces e.text inserted)
    (hi : inserted.NoLoneReturn) {m' : Marker}
    (hmarker : (e.splice edit inserted).markers.get? id = some m') (hv : m'.valid = true) :
    ∃ m, e.markers.get? id = some m ∧ m.valid = true ∧
      SameText e.text m.range (e.splice edit inserted).text m'.range := by
  obtain ⟨m, hget, hvalid, hmiss, hrange⟩ := valid_splice hmarker hv
  refine ⟨m, hget, hvalid, ?_⟩
  rw [hrange]
  exact hr.sameText_mapRange h.noLoneReturn hi (h.markers id m hget hvalid) hmiss

/-- Replacing text leaves what remains in its place. -/
lemma Placed.splice (h : e.Placed) (hr : edit.Replaces e.text inserted)
    (hi : inserted.NoLoneReturn) : (e.splice edit inserted).Placed where
  noLoneReturn := hr.noLoneReturn h.noLoneReturn hi
  cursor := hr.addressable_mapCursor h.noLoneReturn hi h.cursor
  folds := by
    intro id r' hfold
    obtain ⟨r, -, hsame⟩ := h.fold_splice hr hi hfold
    exact hsame.holds
  markers := by
    intro id m' hmarker hv
    obtain ⟨m, -, -, hsame⟩ := h.marker_splice hr hi hmarker hv
    exact hsame.holds

/-- Notifications, decorations and settings are no matter. -/
lemma Placed.of_same {e' : Editor} (h : e.Placed) (htext : e'.text = e.text)
    (hcursor : e'.cursor = e.cursor) (hfolds : e'.folds = e.folds)
    (hmarkers : e'.markers = e.markers) : e'.Placed := by
  refine ⟨?_, ?_, ?_, ?_⟩
  · rw [htext]
    exact h.noLoneReturn
  · rw [htext, hcursor]
    exact h.cursor
  · rw [htext, hfolds]
    exact h.folds
  · rw [htext, hmarkers]
    exact h.markers

lemma Placed.filterFolds (h : e.Placed) (keep : Nat → Range → Bool) :
    ({ e with folds := e.folds.filter keep } : Editor).Placed :=
  { h with
    folds := fun id r hr => by
      rw [Table.get?_filter, Option.filter_eq_some_iff] at hr
      exact h.folds id r hr.1 }

lemma Placed.replace (h : e.Placed) (r : Range) (hi : inserted.NoLoneReturn) :
    (e.replace r inserted).2.Placed := by
  rw [replace_eq]
  exact (h.splice (e.replaces_editOf r inserted) hi).of_same rfl rfl rfl rfl

lemma Placed.setCursor (h : e.Placed) (p : Point) : (e.setCursor p).Placed :=
  ⟨h.noLoneReturn, addressable_clip _ _, h.folds, h.markers⟩

/-- A new fold is clipped to the text, and so it is in its place. -/
lemma Placed.fold (h : e.Placed) (r : Range) : (e.fold r).2.Placed := by
  refine ⟨h.noLoneReturn, h.cursor, ?_, h.markers⟩
  intro id s hs
  have hs : (e.folds.insert e.nextId (e.clipRange r)).get? id = some s := hs
  rw [Table.get?_insert] at hs
  split_ifs at hs
  · rw [← Option.some.inj hs]
    exact e.holds_clipRange r
  · exact h.folds id s hs

lemma Placed.destroyFold (h : e.Placed) (id : FoldId) : (e.destroyFold id).Placed := by
  rw [Editor.destroyFold]
  split
  · exact (h.filterFolds fun k _ => k != id).of_same rfl rfl rfl rfl
  · exact h

/-- A new marker is clipped to the text, and so it is in its place. -/
lemma Placed.createMarker (h : e.Placed) (r : Range) : (e.createMarker r).2.Placed := by
  refine ⟨h.noLoneReturn, h.cursor, h.folds, ?_⟩
  intro id m hm hv
  have hm : (e.markers.insert e.nextId ⟨e.clipRange r, true⟩).get? id = some m := hm
  rw [Table.get?_insert] at hm
  split_ifs at hm
  · rw [← Option.some.inj hm]
    exact e.holds_clipRange r
  · exact h.markers id m hm hv

lemma Placed.destroyMarker (h : e.Placed) (id : MarkerId) : (e.destroyMarker id).Placed := by
  refine ⟨h.noLoneReturn, h.cursor, h.folds, ?_⟩
  intro k m hm hv
  have hm : (e.markers.erase id).get? k = some m := hm
  rw [Table.get?_erase] at hm
  split_ifs at hm
  exact h.markers k m hm hv

end Editor

/-! ## Runs -/

/-- A call that inserts no lone carriage return. -/
def EditorCall.InsertsCleanly : EditorCall → Prop
  | .insert _ text => text.NoLoneReturn
  | .replace _ text => text.NoLoneReturn
  | _ => True

instance EditorCall.decidableInsertsCleanly : (call : EditorCall) → Decidable call.InsertsCleanly
  | .insert _ text => inferInstanceAs (Decidable text.NoLoneReturn)
  | .replace _ text => inferInstanceAs (Decidable text.NoLoneReturn)
  | .setCursor _ | .fold _ | .destroyFold _ | .unfoldRow _ | .createMarker _ | .destroyMarker _
  | .decorate _ _ | .setStyle _ _ | .destroyDecoration _ | .configure _ | .drainMarkerChanges
  | .drainCursorMoves => isTrue trivial

namespace Editor

variable {e : Editor}

/-- Every call that inserts no lone return leaves everything in its place. -/
lemma Placed.run (h : e.Placed) {call : EditorCall} (hc : call.InsertsCleanly) :
    (call.run e).Placed := by
  cases call with
  | insert p text => exact h.replace ⟨p, p⟩ hc
  | replace r text => exact h.replace r hc
  | setCursor p => exact h.setCursor p
  | fold r => exact h.fold r
  | destroyFold id => exact h.destroyFold id
  | unfoldRow row =>
    exact (h.filterFolds fun _ fold => !touchesRow row fold).of_same rfl rfl rfl rfl
  | createMarker r => exact h.createMarker r
  | destroyMarker id => exact h.destroyMarker id
  | _ => exact h.of_same rfl rfl rfl rfl

lemma Placed.runAll (h : e.Placed) {calls : List EditorCall}
    (hcalls : ∀ call ∈ calls, call.InsertsCleanly) : (e.runAll calls).Placed := by
  induction calls generalizing e with
  | nil => exact h
  | cons call calls ih =>
    have hcall : (call.run e).Placed := h.run (hcalls call (by simp))
    exact ih hcall fun c hc => hcalls c (List.mem_cons_of_mem _ hc)

/-- Nothing is out of place in a new editor. -/
lemma placed_new {text : Text} (settings : Settings) (h : text.NoLoneReturn) :
    ({ text, settings } : Editor).Placed where
  noLoneReturn := h
  cursor := addressable_origin text
  folds := fun _ _ hr => by simp at hr
  markers := fun _ _ hm => by simp at hm

/-! ## What an edit hits -/

/-- An edit ends the validity of exactly the valid markers that it changes text inside of. -/
lemma valid_afterEdit (e : Editor) (edit : Edit) (inserted : Text) {id : MarkerId} {m : Marker}
    (hm : e.markers.get? id = some m) (hv : m.valid = true) :
    ∃ m', (e.splice edit inserted).markers.get? id = some m' ∧
      (m'.valid = false ↔ edit.start < m.range.stop ∧ m.range.start < edit.oldStop) := by
  refine ⟨m.afterEdit edit, ?_, ?_⟩
  · rw [splice, Table.get?_map, hm]
    rfl
  · rw [Marker.afterEdit, if_pos hv, Bool.not_eq_false', Edit.hitsInside, decide_eq_true_iff]

/-- An edit removes exactly the folds that it changes text inside of. -/
lemma get?_folds_splice_eq_none (e : Editor) (edit : Edit) (inserted : Text) {id : FoldId}
    {r : Range} (hr : e.folds.get? id = some r) :
    (e.splice edit inserted).folds.get? id = none ↔
      edit.start < r.stop ∧ r.start < edit.oldStop := by
  rw [get?_folds_splice, hr, Option.map_eq_none_iff, Option.filter_eq_none_iff]
  simp [Edit.hitsInside]

/-- **Tracked text.** In every run without lone carriage returns the cursor, the folds and the valid
markers stand at positions of the text. An edit puts the inserted text in the place of the text
between its clipped ends `a` and `b`. What it leaves covers the same text as before, and what it
takes is exactly what it reaches into: what stops after `a` and starts before `b`. -/
theorem runAll_tracks_text (text : Text) (settings : Settings) (calls : List EditorCall)
    (htext : text.NoLoneReturn) (hcalls : ∀ call ∈ calls, call.InsertsCleanly) (r : Range)
    (inserted : Text) (hinserted : inserted.NoLoneReturn) :
    let e := runAll { text, settings } calls
    let a := (e.clipRange r).start
    let b := (e.clipRange r).stop
    let e' := (e.replace r inserted).2
    (e.text.Addressable e.cursor ∧
      (∀ id r, e.folds.get? id = some r → e.text.Holds r) ∧
      (∀ id m, e.markers.get? id = some m → m.valid = true → e.text.Holds m.range)) ∧
    (e'.text = e.text.take (e.text.offset a) ++ inserted ++ e.text.drop (e.text.offset b) ∧
      e'.text.slice? (e.replace r inserted).1 = some inserted) ∧
    ((∀ id m', e'.markers.get? id = some m' → m'.valid = true → ∃ m inside,
        e.markers.get? id = some m ∧ m.valid = true ∧
        e.text.slice? m.range = some inside ∧ e'.text.slice? m'.range = some inside) ∧
      ∀ id r', e'.folds.get? id = some r' → ∃ r inside, e.folds.get? id = some r ∧
        e.text.slice? r = some inside ∧ e'.text.slice? r' = some inside) ∧
    (∀ id m, e.markers.get? id = some m → m.valid = true → ∃ m', e'.markers.get? id = some m' ∧
        (m'.valid = false ↔ a < m.range.stop ∧ m.range.start < b)) ∧
    ∀ id r, e.folds.get? id = some r →
      (e'.folds.get? id = none ↔ a < r.stop ∧ r.start < b) := by
  intro e a b e'
  have hplaced : e.Placed := (placed_new settings htext).runAll hcalls
  have hreplaces := e.replaces_editOf r inserted
  refine ⟨⟨hplaced.cursor, hplaced.folds, hplaced.markers⟩, ⟨rfl, ?_⟩, ⟨?_, ?_⟩, ?_, ?_⟩
  · exact hreplaces.slice?_inserted hplaced.noLoneReturn hinserted
  · intro id m' hm' hv
    obtain ⟨m, hm, hvalid, hsame⟩ := hplaced.marker_splice hreplaces hinserted hm' hv
    obtain ⟨inside, hinside⟩ := hsame.slice?
    exact ⟨m, inside, hm, hvalid, hinside⟩
  · intro id r' hr'
    obtain ⟨s, hs, hsame⟩ := hplaced.fold_splice hreplaces hinserted hr'
    obtain ⟨inside, hinside⟩ := hsame.slice?
    exact ⟨s, inside, hs, hinside⟩
  · intro id m hm hv
    exact e.valid_afterEdit (e.editOf r inserted) inserted hm hv
  · intro id s hs
    exact e.get?_folds_splice_eq_none (e.editOf r inserted) inserted hs

/-- A marker that starts where the replaced text stops and a fold across that text, both moved by an
earlier edit: the fold is removed, and the marker still covers a line ending and what is around it.
-/
theorem runAll_tracks_text_touched :
    let e := runAll { text := "ab\r\ncd\r\nef".toList }
      [.createMarker ⟨⟨1, 0⟩, ⟨2, 1⟩⟩, .fold ⟨⟨0, 1⟩, ⟨1, 1⟩⟩, .insert ⟨0, 0⟩ "x\r\n".toList]
    let e' := (e.replace ⟨⟨2, 0⟩, ⟨1, 1⟩⟩ "q\nzz".toList).2
    e'.text = "x\r\naq\nzzcd\r\nef".toList ∧
      e'.text.slice? (e.replace ⟨⟨2, 0⟩, ⟨1, 1⟩⟩ "q\nzz".toList).1 = some "q\nzz".toList ∧
      (∃ m', e'.markers.get? 1 = some m' ∧ m'.valid = true ∧
        e'.text.slice? m'.range = some "cd\r\ne".toList) ∧
      e'.folds.get? 2 = none := by
  intro e e'
  obtain ⟨-, ⟨-, hnew⟩, ⟨hmarkers, -⟩, -, hfolds⟩ :=
    runAll_tracks_text "ab\r\ncd\r\nef".toList {} [.createMarker ⟨⟨1, 0⟩, ⟨2, 1⟩⟩,
      .fold ⟨⟨0, 1⟩, ⟨1, 1⟩⟩, .insert ⟨0, 0⟩ "x\r\n".toList] (by decide) (by decide)
      ⟨⟨2, 0⟩, ⟨1, 1⟩⟩ "q\nzz".toList (by decide)
  obtain ⟨m, inside, hm, -, hbefore, hafter⟩ := hmarkers 1 _ rfl rfl
  have hrange : m.range = ⟨⟨2, 0⟩, ⟨3, 1⟩⟩ := by
    rw [← Option.some.inj hm]
    decide
  have hinside : inside = "cd\r\ne".toList := by
    rw [hrange] at hbefore
    rw [← Option.some.inj hbefore]
    decide
  refine ⟨by decide, hnew, ⟨_, rfl, rfl, ?_⟩, (hfolds 2 _ rfl).2 (by decide)⟩
  rw [← hinside]
  exact hafter

end Editor

end TemplateFolding
