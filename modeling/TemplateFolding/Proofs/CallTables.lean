import TemplateFolding.Proofs.EditorRuns

/-!
# What a call does to the tables of an editor

Each call treats a fold, a marker or a decoration by its number alone, with no regard to what else
is in the table. What becomes of an entry rests on the text and the next number, so two editors that
agree in these treat the same entry alike, whatever else each of them has.
-/

namespace TemplateFolding

namespace EditorCall

/-- What a call makes of the fold at a number. -/
def foldAfter (e : Editor) (k : FoldId) : EditorCall → Option Range → Option Range
  | insert p text => fun o =>
    (o.filter fun r => !(e.editOf ⟨p, p⟩ text).hitsInside r).map (e.editOf ⟨p, p⟩ text).mapRange
  | replace r text => fun o =>
    (o.filter fun r' => !(e.editOf r text).hitsInside r').map (e.editOf r text).mapRange
  | fold r => fun o => if k = e.nextId then some (e.clipRange r) else o
  | destroyFold id => fun o => if k = id then none else o
  | unfoldRow row => fun o => o.filter fun r => !Editor.touchesRow row r
  | _ => fun o => o

/-- What a call makes of the marker at a number. -/
def markerAfter (e : Editor) (k : MarkerId) : EditorCall → Option Marker → Option Marker
  | insert p text => fun o => o.map (·.afterEdit (e.editOf ⟨p, p⟩ text))
  | replace r text => fun o => o.map (·.afterEdit (e.editOf r text))
  | createMarker r => fun o => if k = e.nextId then some ⟨e.clipRange r, true⟩ else o
  | destroyMarker id => fun o => if k = id then none else o
  | _ => fun o => o

/-- What a call makes of the decoration at a number. -/
def decorationAfter (e : Editor) (d : DecorationId) :
    EditorCall → Option Decoration → Option Decoration
  | destroyMarker id => fun o => o.filter (·.marker != id)
  | decorate marker overlay => fun o => if d = e.nextId then some ⟨marker, overlay⟩ else o
  | setStyle id style => fun o =>
    if d = id then o.map fun x => { x with overlay := { x.overlay with style } } else o
  | destroyDecoration id => fun o => if d = id then none else o
  | _ => fun o => o

variable (e e' : Editor) (call : EditorCall) (k : Nat)

/-- What becomes of one fold under a call depends on that fold alone. -/
lemma get?_folds_run : (call.run e).folds.get? k = call.foldAfter e k (e.folds.get? k) := by
  cases call with
  | insert p text => exact (Table.get?_map _ _ _).trans (by rw [Table.get?_filter]; rfl)
  | replace r text => exact (Table.get?_map _ _ _).trans (by rw [Table.get?_filter]; rfl)
  | fold r => exact Table.get?_insert ..
  | destroyFold id =>
    -- the guard saves a tracked change, and erasing what is not there changes nothing
    show (e.destroyFold id).folds.get? k = if k = id then none else e.folds.get? k
    unfold Editor.destroyFold
    split_ifs with hcontains hk hk
    · exact hk ▸ Table.get?_erase_self ..
    · exact Table.get?_erase_of_ne _ hk
    · rw [hk]
      simpa [Table.contains] using hcontains
    · rfl
  | unfoldRow row => exact Table.get?_filter ..
  | _ => rfl

/-- What becomes of one marker under a call depends on that marker alone. -/
lemma get?_markers_run : (call.run e).markers.get? k = call.markerAfter e k (e.markers.get? k) := by
  cases call with
  | insert p text => exact Table.get?_map ..
  | replace r text => exact Table.get?_map ..
  | createMarker r => exact Table.get?_insert ..
  | destroyMarker id => exact Table.get?_erase ..
  | destroyFold id =>
    show (e.destroyFold id).markers.get? k = e.markers.get? k
    unfold Editor.destroyFold
    split <;> rfl
  | _ => rfl

/-- What becomes of one decoration under a call depends on that decoration alone. -/
lemma get?_decorations_run :
    (call.run e).decorations.get? k = call.decorationAfter e k (e.decorations.get? k) := by
  cases call with
  | destroyMarker id => exact Table.get?_filter ..
  | decorate marker overlay => exact Table.get?_insert ..
  | setStyle id style => exact Table.get?_adjust ..
  | destroyDecoration id => exact Table.get?_erase ..
  | destroyFold id =>
    show (e.destroyFold id).decorations.get? k = e.decorations.get? k
    unfold Editor.destroyFold
    split <;> rfl
  | _ => rfl

/-- A number that has been handed out comes into no table again. -/
lemma after_none (hk : k < e.nextId) : call.foldAfter e k none = none ∧
    call.markerAfter e k none = none ∧ call.decorationAfter e k none = none := by
  have hne : k ≠ e.nextId := Nat.ne_of_lt hk
  cases call <;> simp [foldAfter, markerAfter, decorationAfter, hne]

variable {e e'}

lemma clipRange_congr (htext : e'.text = e.text) : e'.clipRange = e.clipRange := by
  funext r
  rw [Editor.clipRange, Editor.clipRange, htext]

lemma editOf_congr (htext : e'.text = e.text) : e'.editOf = e.editOf := by
  funext r inserted
  rw [Editor.editOf, Editor.editOf, clipRange_congr htext]

/-- What a call makes of the tables rests on the text and the next number. -/
lemma after_congr (htext : e'.text = e.text) (hnext : e'.nextId = e.nextId) :
    call.foldAfter e' k = call.foldAfter e k ∧ call.markerAfter e' k = call.markerAfter e k ∧
      call.decorationAfter e' k = call.decorationAfter e k := by
  have hclip := clipRange_congr htext
  have hedit := editOf_congr htext
  cases call <;> simp [foldAfter, markerAfter, decorationAfter, hclip, hedit, hnext]

/-- Two editors with the same text, cursor and next number have them still after a call. -/
lemma run_congr (htext : e'.text = e.text) (hcursor : e'.cursor = e.cursor)
    (hnext : e'.nextId = e.nextId) :
    (call.run e').text = (call.run e).text ∧ (call.run e').cursor = (call.run e).cursor ∧
      (call.run e').nextId = (call.run e).nextId := by
  have hclip := clipRange_congr htext
  have hedit := editOf_congr htext
  have hreplace : ∀ r inserted, (e'.replace r inserted).2.text = (e.replace r inserted).2.text ∧
      (e'.replace r inserted).2.cursor = (e.replace r inserted).2.cursor ∧
      (e'.replace r inserted).2.nextId = (e.replace r inserted).2.nextId := by
    intro r inserted
    rw [Editor.replace_eq, Editor.replace_eq]
    simp [Editor.splice, htext, hcursor, hnext, hedit]
  cases call with
  | insert p text => exact hreplace ⟨p, p⟩ text
  | replace r text => exact hreplace r text
  | setCursor p => simp [run, Editor.setCursor, htext, hnext]
  | destroyFold id =>
    have hstill : ∀ d : Editor, (d.destroyFold id).text = d.text ∧
        (d.destroyFold id).cursor = d.cursor ∧ (d.destroyFold id).nextId = d.nextId := by
      intro d
      unfold Editor.destroyFold
      split <;> exact ⟨rfl, rfl, rfl⟩
    obtain ⟨ht, hc, hn⟩ := hstill e
    obtain ⟨ht', hc', hn'⟩ := hstill e'
    exact ⟨by rw [run, ht', htext, ← ht]; rfl, by rw [run, hc', hcursor, ← hc]; rfl,
      by rw [run, hn', hnext, ← hn]; rfl⟩
  | _ => exact ⟨htext, hcursor, by simp [run, Editor.fold, Editor.createMarker, Editor.decorate,
      Editor.unfoldRow, Editor.destroyMarker, Editor.setStyle, Editor.destroyDecoration,
      Editor.drainMarkerChanges, Editor.drainCursorMoves, hnext]⟩

/-- A marker stays unless it is destroyed. -/
lemma markerAfter_some {m : Marker} (hk : ∀ id, call = .destroyMarker id → k ≠ id) :
    ∃ m', call.markerAfter e k (some m) = some m' := by
  cases call with
  | createMarker r =>
    unfold markerAfter
    split_ifs
    · exact ⟨_, rfl⟩
    · exact ⟨_, rfl⟩
  | destroyMarker id => exact ⟨m, if_neg (hk id rfl)⟩
  | _ => exact ⟨_, rfl⟩

/-- A decoration stays where it hangs unless it or its marker is destroyed. -/
lemma decorationAfter_some {x : Decoration} (hk : k < e.nextId)
    (hmarker : ∀ id, call = .destroyMarker id → x.marker ≠ id)
    (hd : ∀ id, call = .destroyDecoration id → k ≠ id) :
    ∃ x', call.decorationAfter e k (some x) = some x' ∧ x'.marker = x.marker := by
  cases call with
  | destroyMarker id =>
    refine ⟨x, ?_, rfl⟩
    simpa [decorationAfter, Option.filter_eq_some_iff] using hmarker id rfl
  | decorate marker overlay => exact ⟨x, if_neg (Nat.ne_of_lt hk), rfl⟩
  | setStyle id style =>
    by_cases hid : k = id
    · exact ⟨{ x with overlay := { x.overlay with style } }, if_pos hid, rfl⟩
    · exact ⟨x, if_neg hid, rfl⟩
  | destroyDecoration id => exact ⟨x, if_neg (hd id rfl), rfl⟩
  | _ => exact ⟨_, rfl, rfl⟩

/-- A decoration that was there before a call hangs where it hung. -/
lemma marker_of_decorationAfter {x y : Decoration} (hk : k < e.nextId)
    (h : call.decorationAfter e k (some y) = some x) : x.marker = y.marker := by
  cases call with
  | destroyMarker id =>
    have hkept : (some y).filter (·.marker != id) = some x := h
    rw [Option.some.inj (Option.filter_eq_some_iff.1 hkept).1]
  | decorate marker overlay =>
    have hsame : some y = some x := (if_neg (Nat.ne_of_lt hk)).symm.trans h
    rw [Option.some.inj hsame]
  | setStyle id style =>
    by_cases hid : k = id
    · rw [← Option.some.inj ((if_pos hid).symm.trans h)]
    · rw [Option.some.inj ((if_neg hid).symm.trans h)]
  | destroyDecoration id =>
    by_cases hid : k = id
    · exact absurd ((if_pos hid).symm.trans h) (by simp)
    · rw [Option.some.inj ((if_neg hid).symm.trans h)]
  | _ => rw [Option.some.inj h]

end EditorCall

end TemplateFolding
