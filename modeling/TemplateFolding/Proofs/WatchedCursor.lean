import TemplateFolding.Proofs.StandingFoldings

/-!
# Highlighting follows the cursor

The host changes an editor with foldings by one call, and the foldings are brought up to date. The
move of the cursor is judged with its position before the call against the ranges after it, and only
on the rows where the move starts and ends. Still a folding that was highlighted and that the cursor
leaves is always noticed: an edit can take the cursor out of a folding only where the folding stops,
and such an edit does not move the row on which the folding is drawn.

The result is an exact law for one call. A folding is highlighted after it if it is shown with the
cursor inside, and either it was highlighted before or the old position of the cursor is not in its
new range.
-/

namespace TemplateFolding

open Text Point

/-! ## Calls that change the text, the cursor or the folds -/

/-- The calls by which a host changes the text, the cursor or the folds. -/
def EditorCall.Mutates : EditorCall → Prop
  | .insert _ _ | .replace _ _ | .setCursor _ | .fold _ | .destroyFold _ | .unfoldRow _ => True
  | _ => False

namespace EditorCall.Mutates

variable {call : EditorCall} {e : Editor} {s : FoldedEditor}

/-- A host may always change the text, the cursor and the folds. -/
lemma permits (h : call.Mutates) (s : FoldedEditor) : s.Permits call := by
  cases call <;> trivial

/-- Such a call queues the move of the cursor that it makes, if it makes one. -/
lemma cursorMoves_run (h : call.Mutates) (e : Editor) : (call.run e).cursorMoves =
    e.cursorMoves ++ (Editor.cursorMoveSince e (call.run e)).toList := by
  cases call with
  | insert | replace | setCursor | fold | unfoldRow => rfl
  | destroyFold id =>
    show (e.destroyFold id).cursorMoves = _ ++ (Editor.cursorMoveSince e (e.destroyFold id)).toList
    unfold Editor.destroyFold
    split
    · rfl
    · simp [Editor.cursorMoveSince]
  | _ => exact h.elim

end EditorCall.Mutates

namespace FoldedEditor

variable {s : FoldedEditor} {e : Editor} {call : EditorCall} {edit : Edit} {inserted : Text}

/-- A change that leaves the text and the ranges of the foldings alone, and of the folds handed out
so far removes some at most. -/
lemma Standing.of_folds (h : s.Standing) (htext : e.text = s.editor.text)
    (hat : ∀ id f r, ({ s with editor := e } : FoldedEditor).At id f r → s.At id f r)
    (hnext : s.editor.nextId ≤ e.nextId)
    (hfolds : ∀ k q, k < s.editor.nextId → e.folds.get? k = some q →
      s.editor.folds.get? k = some q) : ({ s with editor := e } : FoldedEditor).Standing where
  firm := by
    intro id f r ha
    rw [show ({ s with editor := e } : FoldedEditor).editor.text = s.editor.text from htext]
    exact h.firm id f r (hat id f r ha)
  flat := h.flat
  handedOut := fun id f k hf hk => Nat.lt_of_lt_of_le (h.handedOut id f k hf hk) hnext
  clear := by
    intro id f r id' f' k q ha hf' hne hk hq
    exact h.clear id f r id' f' k q (hat id f r ha) hf' hne hk
      (hfolds k q (h.handedOut id' f' k hf' hk) hq)

/-- An edit moves the foldings it keeps out of and the folds of the others alike. -/
lemma Standing.splice (h : s.Standing) (hr : edit.Replaces s.editor.text inserted)
    (htext : e.text = (s.editor.splice edit inserted).text)
    (hmarkers : e.markers = (s.editor.splice edit inserted).markers)
    (hfolds : e.folds = (s.editor.splice edit inserted).folds)
    (hnext : e.nextId = s.editor.nextId) : ({ s with editor := e } : FoldedEditor).Standing := by
  -- a folding that is valid after the edit was so before, and the edit kept out of it
  have hbefore : ∀ id f r, ({ s with editor := e } : FoldedEditor).At id f r →
      ∃ r₀, s.At id f r₀ ∧ edit.hitsInside r₀ = false ∧ r = edit.mapRange r₀ := by
    intro id f r ha
    have hm : (s.editor.splice edit inserted).markers.get? f.marker = some ⟨r, true⟩ :=
      hmarkers ▸ ha.marker
    obtain ⟨⟨r₀, valid⟩, hm₀, rfl, hmiss, hrange⟩ := Editor.valid_splice hm rfl
    exact ⟨r₀, ⟨ha.live, hm₀⟩, hmiss, hrange⟩
  refine ⟨?_, h.flat, ?_, ?_⟩
  · intro id f r ha
    obtain ⟨r₀, ha₀, hmiss, rfl⟩ := hbefore id f r ha
    obtain ⟨x, hx, hstands⟩ := h.firm id f r₀ ha₀
    rw [show ({ s with editor := e } : FoldedEditor).editor.text = _ from htext]
    exact ⟨x, hx, hr.standsAt hstands hx hmiss⟩
  · intro id f k hf hk
    show k < e.nextId
    rw [hnext]
    exact h.handedOut id f k hf hk
  · intro id f r id' f' k q ha hf' hne hk hq
    obtain ⟨r₀, ha₀, hmiss, rfl⟩ := hbefore id f r ha
    obtain ⟨x, hx, hstands⟩ := h.firm id f r₀ ha₀
    obtain ⟨q₀, hq₀, hqmiss, rfl⟩ := Editor.exists_of_get?_folds_splice (hfolds ▸ hq)
    obtain ⟨hlt, hapart⟩ := h.clear id f r₀ id' f' k q₀ ha₀ hf' hne hk hq₀
    refine ⟨Edit.mapRange_lt hlt hqmiss, ?_⟩
    rcases hapart with hle | hle
    · exact .inl (hr.mapRange_apart hlt hqmiss hmiss hle)
    · exact .inr (hr.mapRange_apart (hstands.holds hx).2.2 hmiss hqmiss hle)

/-- Such a call leaves standing what stands: folds can go, and texts move as a whole. -/
theorem Standing.host (h : s.Standing) (hc : call.Mutates) :
    (s.host fun e => call.run e).Standing := by
  have hat : ∀ {e : Editor}, e.markers = s.editor.markers → ∀ id f r,
      ({ s with editor := e } : FoldedEditor).At id f r → s.At id f r :=
    fun heq _ _ _ ha => ⟨ha.live, heq ▸ ha.marker⟩
  cases call with
  | insert p text =>
    exact h.splice (s.editor.replaces_editOf ⟨p, p⟩ text) rfl rfl rfl rfl
  | replace r text => exact h.splice (s.editor.replaces_editOf r text) rfl rfl rfl rfl
  | setCursor p => exact h.of_folds rfl (hat rfl) (Nat.le_refl _) fun _ _ _ hq => hq
  | fold r =>
    refine h.of_folds rfl (hat rfl) (Nat.le_succ _) fun k q hk hq => ?_
    exact (Table.get?_insert_of_ne _ _ (Nat.ne_of_lt hk)).symm.trans hq
  | destroyFold id =>
    show ({ s with editor := s.editor.destroyFold id } : FoldedEditor).Standing
    unfold Editor.destroyFold
    split
    · exact h.of_folds rfl (hat rfl) (Nat.le_refl _) fun _ _ _ hq => Table.get?_of_get?_filter hq
    · exact h
  | unfoldRow row =>
    exact h.of_folds rfl (hat rfl) (Nat.le_refl _) fun _ _ _ hq => Table.get?_of_get?_filter hq
  | _ => exact hc.elim

end FoldedEditor

/-! ## The cursor leaves a folding -/

namespace Editor

variable {e : Editor} {edit : Edit} {inserted x : Text} {r r' : Range} {k : MarkerId}
  {call : EditorCall}

/-- The cursor is left behind by a range that moves with an edit. Then its old position is in the
new range, and on the row on which the folding is filed. -/
lemma leaves_splice (hr : edit.Replaces e.text inserted) (hk : e.Kept) (hx : x.Firm)
    (hs : e.text.StandsAt x r) (hmiss : edit.hitsInside r = false)
    (hflat : (e.screenRange r).start.row = (e.screenRange r).stop.row)
    (hpoint : (e.screenRange r).isPoint =
      ((e.splice edit inserted).screenRange (edit.mapRange r)).isPoint)
    (hin : r.contains e.cursor = true)
    (hout : (edit.mapRange r).contains (edit.mapCursor e.cursor) = false) :
    (edit.mapRange r).contains e.cursor = true ∧ (e.screenPoint e.cursor).row =
      ((e.splice edit inserted).screenRange (edit.mapRange r)).start.row := by
  obtain ⟨hstart, -, hmap⟩ := hr.start_of_leaves hmiss hin hout
  obtain ⟨haddr, hstop, hlt⟩ := hs.holds hx
  obtain ⟨haddr', hstop', -⟩ := (hr.standsAt hs hx hmiss).holds hx
  rw [hmap] at hpoint haddr' hstop' ⊢
  refine ⟨hin, ?_⟩
  -- nothing is around the range after the edit, and so nothing was before it
  have hfree : ¬Buried e.folds.values r.start r.stop := by
    rw [← hk.isPoint_screenRange haddr hstop hlt, hpoint,
      (hk.splice edit inserted).isPoint_screenRange haddr' hstop' hlt]
    exact not_buried_splice hr hlt hstart
  calc (e.screenPoint e.cursor).row = (e.screenRange r).start.row :=
        hk.row_screenPoint (addressable_iff.1 hstop).1 hflat hin
    _ = ((e.splice edit inserted).screenRange r).start.row :=
        congrArg Point.row (screenPoint_splice_of_start hr hs hx hstart hfree).symm

/-- If a call takes the cursor out of a folding, then the old position of the cursor is still in the
range of the folding, and it was drawn on the row where the folding is drawn now. -/
theorem leaves_run (hc : call.Mutates) (hk : e.Kept) (hx : x.Firm) (hs : e.text.StandsAt x r)
    (hm : e.markers.get? k = some ⟨r, true⟩)
    (hm' : (call.run e).markers.get? k = some ⟨r', true⟩)
    (hflat : (e.screenRange r).start.row = (e.screenRange r).stop.row)
    (hpoint : (e.screenRange r).isPoint = ((call.run e).screenRange r').isPoint)
    (hin : r.contains e.cursor = true) (hout : r'.contains (call.run e).cursor = false) :
    r'.contains e.cursor = true ∧
      (e.screenPoint e.cursor).row = ((call.run e).screenRange r').start.row := by
  have hstop := (hs.holds hx).2.1
  -- the range stays where it is unless text changes
  have hsame : (call.run e).markers = e.markers → r' = r := by
    intro heq
    rw [heq, hm] at hm'
    exact ((Marker.mk.injEq _ _ _ _).mp (Option.some.inj hm')).1.symm
  have hsplice : ∀ range text, (e.replace range text).2 = call.run e →
      r'.contains e.cursor = true ∧
        (e.screenPoint e.cursor).row = ((call.run e).screenRange r').start.row := by
    intro range text heq
    rw [← heq] at hm' hpoint hout ⊢
    have hspliced : (e.splice (e.editOf range text) text).markers.get? k = some ⟨r', true⟩ := hm'
    obtain ⟨m, hm₀, -, hmiss, hrange⟩ := valid_splice hspliced rfl
    obtain rfl := Option.some.inj (hm.symm.trans hm₀)
    obtain rfl : r' = _ := hrange
    exact leaves_splice (e.replaces_editOf range text) hk hx hs hmiss hflat hpoint hin hout
  cases call with
  | insert p text => exact hsplice ⟨p, p⟩ text rfl
  | replace range text => exact hsplice range text rfl
  | setCursor p =>
    obtain rfl := hsame rfl
    exact ⟨hin, hk.row_screenPoint (addressable_iff.1 hstop).1 hflat hin⟩
  | fold range =>
    obtain rfl := hsame rfl
    exact absurd (hin.symm.trans hout) (by simp)
  | destroyFold id =>
    have hstill : (e.destroyFold id).markers = e.markers ∧
        (e.destroyFold id).cursor = e.cursor := by
      unfold destroyFold
      split <;> exact ⟨rfl, rfl⟩
    obtain rfl := hsame hstill.1
    rw [show (EditorCall.run e (.destroyFold id)).cursor = e.cursor from hstill.2] at hout
    exact absurd (hin.symm.trans hout) (by simp)
  | unfoldRow row =>
    obtain rfl := hsame rfl
    exact absurd (hin.symm.trans hout) (by simp)
  | _ => exact hc.elim

end Editor

/-! ## One call -/

namespace FoldedEditor

variable {s s' : FoldedEditor} {call : EditorCall} {m : CursorMove} {id : FoldingId}
  {f f' : Folding} {r r' : Range} {row : Nat}

lemma At.rangeOf? (h : s.At id f r) : s.rangeOf? id = some r := by
  unfold FoldedEditor.rangeOf? Editor.markerRange?
  rw [h.live, Option.bind_some, h.marker]
  rfl

/-- With nothing queued a folding that has a range has a valid marker. -/
lemma Tracked.at_of_rangeOf? (h : s.Tracked []) (hq : s.Quiet) (hr : s.rangeOf? id = some r) :
    ∃ f, s.At id f r := by
  obtain ⟨f, hf, -⟩ := Option.bind_eq_some_iff.1 hr
  obtain ⟨r', ha⟩ := h.exists_at hq hf
  obtain rfl := Option.some.inj (ha.rangeOf?.symm.trans hr)
  exact ⟨f, ha⟩

/-- A move of the cursor brings the highlighting of a folding up to date, provided that a folding it
leaves is highlighted only if the move starts on its row. -/
lemma highlighted_underMove (hshown : f.label.isHidden = false)
    (hrow : s.highlighter.index.rowOf.get? id = some row) (hrange : s.rangeOf? id = some r)
    (henters : r.contains m.new = true → m.newScreen.row = row)
    (hleaves : f.info.highlighted = true → r.contains m.new = false →
      r.contains m.old = true ∧ m.oldScreen.row = row) :
    (s.underMove m id f).info.highlighted = true ↔
      r.contains m.new = true ∧ (f.info.highlighted = true ∨ r.contains m.old = false) := by
  unfold underMove
  simp only [hshown, hrow, hrange, Option.any_some, Highlighter.enters, Highlighter.leaves,
    Option.some.injEq, Bool.false_eq_true, if_false]
  cases hnew : r.contains m.new with
  | true =>
    cases hold : r.contains m.old with
    | true => simp
    | false => simp [henters hnew, Folding.highlight]
  | false =>
    cases hhl : f.info.highlighted with
    | true =>
      obtain ⟨hold, hrow'⟩ := hleaves hhl hnew
      simp [hold, hrow', Folding.highlight]
    | false =>
      simp only [Bool.and_false, Bool.false_eq_true, and_false, if_false, false_and, iff_false]
      split <;> simp [Folding.highlight, hhl]

lemma isHidden_underMove (s : FoldedEditor) (m : CursorMove) (id : FoldingId) (f : Folding) :
    (s.underMove m id f).label.isHidden = f.label.isHidden := by
  unfold underMove
  dsimp only
  split_ifs <;> rfl

/-- What is hidden is not highlighted by a move of the cursor. -/
lemma underMove_of_isHidden (hhidden : f.label.isHidden = true) (s : FoldedEditor)
    (m : CursorMove) (id : FoldingId) : s.underMove m id f = f := by
  unfold underMove
  simp [hhidden]

/-- A move of the cursor leaves the style of a label in agreement with the highlighting. -/
lemma styled_underMove (h : f.Styled) (s : FoldedEditor) (m : CursorMove) (id : FoldingId) :
    (s.underMove m id f).Styled := by
  unfold underMove
  dsimp only
  split_ifs
  · exact h
  · exact f.styled_highlight true
  · exact f.styled_highlight false
  · exact h

lemma enabled_onMarkerChange (s : FoldedEditor) (c : MarkerChange) :
    (s.onMarkerChange c).highlighter.enabled = s.highlighter.enabled := by
  refine onMarkerChange_elim s c (fun _ => rfl) (fun _ _ _ => rfl) (fun _ _ _ => rfl)
    (fun _ _ _ => rfl) fun id _ _ _ _ => ?_
  unfold destroyFolding
  split <;> rfl

lemma enabled_followed (s : FoldedEditor) :
    s.followed.highlighter.enabled = s.highlighter.enabled :=
  List.foldlRecOn (motive := fun t : FoldedEditor => t.highlighter.enabled = s.highlighter.enabled)
    s.editor.markerChanges _ rfl fun t ht c _ => (enabled_onMarkerChange t c).trans ht

/-- Nothing is queued but one move of the cursor at most, so a round applies at most that. -/
lemma get?_live_processRound (h : s.Tracked []) (hon : s.highlighter.enabled = true)
    {move : Option CursorMove} (hmoves : s.editor.cursorMoves = move.toList) (id : FoldingId) :
    s.processRound.live.get? id = (s.followed.live.get? id).map fun f =>
      move.elim f fun m => s.followed.underMove m id f := by
  rw [processRound_eq, hmoves]
  cases move with
  | none => simp
  | some m =>
    exact get?_live_onCursorMove h.followed.index ((enabled_followed s).trans hon) m id

/-- Highlighting is on, and what is highlighted has the cursor inside. -/
structure Watched (s : FoldedEditor) : Prop where
  tracked : s.Tracked []
  standing : s.Standing
  enabled : s.highlighter.enabled = true
  styled : ∀ id f, s.live.get? id = some f → f.Styled
  inside : ∀ id f r, s.At id f r → f.info.highlighted = true →
    r.contains s.editor.cursor = true

/-- A highlighted folding that the cursor leaves is on the row where the move starts. -/
lemma Watched.leaves (h : s.Watched) (hq : s.Quiet) (hc : call.Mutates) (ha : s.At id f r)
    (hm' : (call.run s.editor).markers.get? f.marker = some ⟨r', true⟩)
    (htranslated : f.initialScreen.isTranslationOf ((call.run s.editor).screenRange r') = true)
    (hhl : f.info.highlighted = true) (hout : r'.contains (call.run s.editor).cursor = false) :
    r'.contains s.editor.cursor = true ∧ (s.editor.screenPoint s.editor.cursor).row =
      ((call.run s.editor).screenRange r').start.row := by
  obtain ⟨x, hx, hstands⟩ := h.standing.firm id f r ha
  have hvisible : f.initialScreen.isTranslationOf (s.editor.screenRange r) = true := by
    rcases h.tracked.looks_of_quiet hq ha with hlook | ⟨-, hlook⟩
    · exact hlook.1
    · rw [hlook.2.2.2] at hhl
      exact absurd hhl (by simp)
  have hflat := row_of_isTranslationOf hvisible (h.standing.flat id f ha.live)
  have hpoint := (isPoint_of_isTranslationOf hvisible).symm.trans
    (isPoint_of_isTranslationOf htranslated)
  exact Editor.leaves_run hc h.tracked.tidy.toKept hx hstands ha.marker hm' hflat hpoint
    (h.inside id f r ha hhl) hout

/-- The move of the cursor that a call causes brings the highlighting of a shown folding up to
date. -/
lemma Watched.highlighted_move (h : s.Watched) (hq : s.Quiet) (hc : call.Mutates) {g : Folding}
    (hg : (s.host fun e => call.run e).followed.live.get? id = some g)
    (ha' : (s.host fun e => call.run e).At id f r') (hcont : f.Continues g)
    (hinitial : g.initialScreen = f.initialScreen)
    (hvisible : (s.host fun e => call.run e).followed.LooksVisible id g
      ((call.run s.editor).screenRange r')) :
    ((Editor.cursorMoveSince s.editor (call.run s.editor)).elim g fun m =>
        (s.host fun e => call.run e).followed.underMove m id g).info.highlighted = true ↔
      r'.contains (call.run s.editor).cursor = true ∧
        (f.info.highlighted = true ∨ r'.contains s.editor.cursor = false) := by
  have ht := h.tracked.host call (hc.permits s)
  obtain ⟨htranslated, hshown, hrow⟩ := hvisible
  have hhl : g.info.highlighted = f.info.highlighted := by
    rcases hcont.highlight with hsame | hhidden
    · exact hsame.1
    · rw [hshown] at hhidden
      exact absurd hhidden.1 (by simp)
  obtain ⟨r, ha⟩ := h.tracked.exists_at hq (show s.live.get? id = some f from ha'.live)
  have hleaves := h.leaves hq hc ha ha'.marker (hinitial ▸ htranslated)
  rw [← hhl] at hleaves ⊢
  cases hmove : Editor.cursorMoveSince s.editor (call.run s.editor) with
  | none =>
    -- the cursor stays where it is
    have hcursor : (call.run s.editor).cursor = s.editor.cursor := by
      unfold Editor.cursorMoveSince at hmove
      simp only [ite_eq_left_iff] at hmove
      by_contra hne
      exact absurd (hmove fun heq => hne heq.1) (by simp)
    rw [hcursor] at hleaves ⊢
    cases hin : r'.contains s.editor.cursor with
    | true => simp
    | false =>
      rw [hin] at hleaves
      simpa using hleaves
  | some m =>
    have hmem : m ∈ (Editor.cursorMoveSince s.editor (call.run s.editor)).toList := by
      rw [hmove, Option.toList_some, List.mem_singleton]
    obtain ⟨hold, hnew, holdScreen, hnewScreen⟩ := Editor.mem_cursorMoveSince hmem
    rw [← holdScreen, ← hold, ← hnew] at hleaves
    rw [← hold, ← hnew]
    refine highlighted_underMove hshown hrow ?_ ?_ hleaves
    · refine At.rangeOf? (f := g) ⟨hg, ?_⟩
      rw [ht.remains_followed.markers id g hg, hcont.marker]
      exact ha'.marker
    · intro hin
      obtain ⟨x, hx, hstands⟩ := (h.standing.host hc).firm id f r' ha'
      rw [hnewScreen, ← hnew]
      refine ht.tidy.toKept.row_screenPoint (addressable_iff.1 (hstands.holds hx).2.1).1 ?_ hin
      exact row_of_isTranslationOf htranslated (hinitial ▸ h.standing.flat id f ha.live)

/-- The first round after a call settles what is hidden, and highlights what is shown, has the
cursor inside and had it outside or was highlighted before. -/
lemma Watched.firstRound (h : s.Watched) (hq : s.Quiet) (hc : call.Mutates)
    (hf' : (s.host fun e => call.run e).processRound.live.get? id = some f') :
    ∃ f r', (s.host fun e => call.run e).At id f r' ∧ f'.Styled ∧
      (f'.label.isHidden = true ↔ f.initialScreen.isPoint = false ∧
        Buried (call.run s.editor).folds.values r'.start r'.stop) ∧
      (f'.info.highlighted = true ↔ f'.label.isHidden = false ∧
        r'.contains (call.run s.editor).cursor = true ∧
        (f.info.highlighted = true ∨ r'.contains s.editor.cursor = false)) := by
  have ht := h.tracked.host call (hc.permits s)
  have hs := h.standing.host hc
  have hmoves : (call.run s.editor).cursorMoves =
      (Editor.cursorMoveSince s.editor (call.run s.editor)).toList := by
    rw [hc.cursorMoves_run, hq.2, List.nil_append]
  rw [get?_live_processRound ht h.enabled hmoves] at hf'
  obtain ⟨g, hg, rfl⟩ := Option.map_eq_some_iff.1 hf'
  obtain ⟨f, ⟨r', valid⟩, hf, hcont, hm', rfl, hlooks⟩ := ht.looks_followed hg
  have ha' : (s.host fun e => call.run e).At id f r' := ⟨hf, hcont.marker ▸ hm'⟩
  obtain ⟨x, hx, hstands⟩ := hs.firm id f r' ha'
  have hinitial : g.initialScreen = f.initialScreen := by
    obtain ⟨f₀, hf₀, -, -, hinitial⟩ := ht.remains_followed.live id g hg
    rwa [Option.some.inj (hf.symm.trans hf₀)]
  have hhidden := hlooks.isHidden_iff ht.tidy.toKept hx hstands
  rw [hinitial] at hhidden
  have hstyled := hcont.styled (h.styled id f hf)
  generalize hmove : Editor.cursorMoveSince s.editor (call.run s.editor) = move at hmoves
  have hsame : (move.elim g fun m =>
      (s.host fun e => call.run e).followed.underMove m id g).label.isHidden =
        g.label.isHidden := by
    cases move with
    | none => rfl
    | some m => exact isHidden_underMove _ m id g
  refine ⟨f, r', ha', ?_, hsame ▸ hhidden, ?_⟩
  · cases move with
    | none => exact hstyled
    | some m => exact styled_underMove hstyled _ m id
  · rw [hsame]
    rcases hlooks with hvisible | ⟨-, hcollapsed⟩
    · rw [← hmove, h.highlighted_move hq hc hg ha' hcont hinitial hvisible, hvisible.2.1]
      simp
    · have hkept : (move.elim g fun m =>
          (s.host fun e => call.run e).followed.underMove m id g) = g := by
        cases move with
        | none => rfl
        | some m => exact underMove_of_isHidden hcollapsed.2.1 _ m id
      rw [hkept, hcollapsed.2.1, hcollapsed.2.2.2]
      simp

lemma exists_process_eq (s : FoldedEditor) : ∃ n, s.process = processRounds n s.processRound := by
  have hprocess : s.process =
      if s.editor.hasPending then processRounds s.live.size s.processRound else s := rfl
  cases hpending : s.editor.hasPending with
  | true => exact ⟨s.live.size, by rw [hprocess, if_pos hpending]⟩
  | false =>
    -- a round with nothing to do
    have hq : s.Quiet := by simpa [Editor.hasPending, Quiet] using hpending
    refine ⟨0, ?_⟩
    rw [hprocess, if_neg (by simp [hpending]), processRounds, processRound_eq, followed, hq.1, hq.2]
    exact hq.emptied_eq.symm

/-- After the first round nothing is left to happen but that foldings are taken down. -/
lemma Watched.calm_processRound (h : s.Watched) (hq : s.Quiet) (hc : call.Mutates) :
    (s.host fun e => call.run e).processRound.Calm := by
  have ht := h.tracked.host call (hc.permits s)
  have hs := h.standing.host hc
  have hremains : (s.host fun e => call.run e).Remains (s.host fun e => call.run e).processRound :=
    (Remains.refl _).emptied.trans (steps_remain ht.steps_processRound ht.knowsMarkers).1
  refine ⟨ht.processRound, hs.remains hremains, ht.still_processRound, ?_, ?_⟩
  · intro id f' r ha
    obtain ⟨f, r', ha', -, hhidden, -⟩ := h.firstRound hq hc ha.live
    obtain ⟨g, hg, -, hinitial⟩ := ha.of_remains hremains
    obtain rfl := Option.some.inj (ha'.live.symm.trans hg.live)
    obtain rfl : r' = r := congrArg Marker.range (Option.some.inj (ha'.marker.symm.trans hg.marker))
    rw [hhidden, hinitial, hs.buried_iff hremains ha]
    rfl
  · intro id f' hf'
    obtain ⟨f, r', -, hstyled, -⟩ := h.firstRound hq hc hf'
    exact hstyled

/-- After a call and the processing of what it queued, a folding is highlighted exactly if it is
shown with the cursor inside, and it was highlighted before or the cursor was not in its range. -/
theorem Watched.highlighted_iff (h : s.Watched) (hq : s.Quiet) (hc : call.Mutates)
    (ha' : (s.host fun e => call.run e).process.At id f' r') :
    ∃ f, s.live.get? id = some f ∧ f'.Styled ∧
      (f'.info.highlighted = true ↔ f'.label.isHidden = false ∧
        r'.contains (call.run s.editor).cursor = true ∧
        (f.info.highlighted = true ∨ r'.contains s.editor.cursor = false)) := by
  have ht := h.tracked.host call (hc.permits s)
  obtain ⟨n, hn⟩ := exists_process_eq (s.host fun e => call.run e)
  have hlive : (processRounds n (s.host fun e => call.run e).processRound).live.get? id = some f' :=
    hn ▸ ha'.live
  -- the first round applies the move of the cursor, and the others change no highlighting
  obtain ⟨g, hg, hlook, hstyled⟩ := (h.calm_processRound hq hc).processRounds n hlive
  obtain ⟨f, r, ha, -, -, hlaw⟩ := h.firstRound hq hc hg
  obtain ⟨f₀, ha₀, -⟩ := ha'.of_remains ht.remains_process
  obtain rfl := Option.some.inj (ha.live.symm.trans ha₀.live)
  obtain rfl : r = r' := congrArg Marker.range (Option.some.inj (ha.marker.symm.trans ha₀.marker))
  refine ⟨f, ha.live, hstyled, ?_⟩
  rw [hlook.highlighted, hlook.isHidden]
  exact hlaw

/-- What is watched is watched again after a call of the host has been processed. -/
theorem Watched.host (h : s.Watched) (hq : s.Quiet) (hc : call.Mutates) :
    (s.host fun e => call.run e).process.Watched := by
  have ht := h.tracked.host call (hc.permits s)
  have hremains := ht.remains_process
  have hconfigured : (s.host fun e => call.run e).Configured (call.run s.editor).settings true :=
    ⟨rfl, h.enabled⟩
  refine ⟨ht.process, (h.standing.host hc).remains hremains, hconfigured.process.2, ?_, ?_⟩
  · intro id f' hf'
    obtain ⟨r', ha'⟩ := ht.process.exists_at (quiet_process _) hf'
    obtain ⟨f, -, hstyled, -⟩ := h.highlighted_iff hq hc ha'
    exact hstyled
  · intro id f' r' ha' hhl
    obtain ⟨f, -, -, hlaw⟩ := h.highlighted_iff hq hc ha'
    rw [hremains.cursor]
    exact (hlaw.1 hhl).2.1

end FoldedEditor

end TemplateFolding
