import TemplateFolding.Proofs.HighlightSessions
import TemplateFolding.Proofs.Quiescence
import TemplateFolding.Proofs.UndrawnStates

/-!
# The index by rows misses nothing

When the cursor moves, only the foldings are looked at that are filed under the row where the move
starts or under the row where it ends. This is enough, whatever the host and the foldings have done
before: every line ending inside a folding is folded when it is made, so it is drawn on one row, and
as long as it is shown its extent is a translation of that first one. A cursor anywhere inside is
drawn on that row, under which the folding is filed.

Main statement: a move of the cursor does to every folding what looking at it would.
-/

namespace TemplateFolding

open Text Point

namespace FoldedEditor

variable {s s' t : FoldedEditor} {id : FoldingId} {f f' : Folding} {r : Range} {call : EditorCall}
  {request : FoldRequest} {requests : List FoldRequest} {info : FoldingInfo}

/-! ## Foldings on one row -/

/-- Every folding was drawn on one row when it was made, and its range is within the rows of the
text. -/
structure Filed (s : FoldedEditor) : Prop where
  tracked : s.Tracked []
  flat : ∀ id f, s.live.get? id = some f → f.initialScreen.start.row = f.initialScreen.stop.row
  within : ∀ id f r, s.At id f r → r.stop.row ≤ s.editor.text.lastRow
  handedOut : ∀ id f k, s.live.get? id = some f → k ∈ f.folds.folds → k < s.editor.nextId

/-- Foldings that remain are filed as they were. -/
lemma Filed.remains (h : s.Filed) (hr : s.Remains s') (ht : s'.Tracked []) : s'.Filed where
  tracked := ht
  flat := by
    intro id f' hf'
    obtain ⟨f, hf, -, -, hinitial⟩ := hr.live id f' hf'
    rw [hinitial]
    exact h.flat id f hf
  within := by
    intro id f' r ha
    obtain ⟨f, ha', -⟩ := ha.of_remains hr
    rw [hr.text]
    exact h.within id f r ha'
  handedOut := by
    intro id f' k hf' hk
    obtain ⟨f, hf, -, hfolds, -⟩ := hr.live id f' hf'
    exact Nat.lt_of_lt_of_le (h.handedOut id f k hf (hfolds ▸ hk)) hr.nextId

lemma Filed.process (h : s.Filed) : s.process.Filed :=
  h.remains h.tracked.remains_process h.tracked.process

/-- A change to the editor that leaves the text and the ranges of the foldings alone. -/
lemma Filed.of_still {e : Editor} (h : s.Filed)
    (ht : ({ s with editor := e } : FoldedEditor).Tracked []) (htext : e.text = s.editor.text)
    (hnext : s.editor.nextId ≤ e.nextId)
    (hat : ∀ id f r, ({ s with editor := e } : FoldedEditor).At id f r → s.At id f r) :
    ({ s with editor := e } : FoldedEditor).Filed where
  tracked := ht
  flat := h.flat
  within := by
    intro id f r ha
    show r.stop.row ≤ e.text.lastRow
    rw [htext]
    exact h.within id f r (hat id f r ha)
  handedOut := fun id f k hf hk => Nat.lt_of_lt_of_le (h.handedOut id f k hf hk) hnext

/-- The markers of foldings have been handed out. -/
lemma Tracked.marker_lt (h : s.Tracked []) (hf : s.live.get? id = some f) :
    f.marker < s.editor.nextId := by
  obtain ⟨known, hfol⟩ := h.follows id f hf
  obtain ⟨m, hm, -⟩ := (hfol.tracks : s.editor.Tracks f.marker known)
  exact h.tidy.markers _ m hm

/-- Replacing text leaves the foldings within the rows of the new text. -/
lemma Filed.splice (h : s.Filed) (range : Range) (text : Text)
    (ht : (s.host fun e => (e.replace range text).2).Tracked []) :
    (s.host fun e => (e.replace range text).2).Filed where
  tracked := ht
  flat := h.flat
  within := by
    intro id f r ha
    have hm : (s.editor.splice (s.editor.editOf range text) text).markers.get? f.marker =
        some ⟨r, true⟩ := ha.marker
    obtain ⟨⟨r₀, valid⟩, hm₀, rfl, hmiss, hrange⟩ := Editor.valid_splice hm rfl
    obtain rfl : r = _ := hrange
    exact (s.editor.replaces_editOf range text).row_mapRange_le hmiss
      (h.within id f r₀ ⟨ha.live, hm₀⟩) (h.tracked.tidy.markerOrder _ _ hm₀)
  handedOut := h.handedOut

/-- Whatever the host is permitted leaves the foldings filed. -/
lemma Filed.host (h : s.Filed) (hp : s.Permits call) : (s.host fun e => call.run e).Filed := by
  have ht := h.tracked.host call hp
  have hnext := s.editor.nextId_le_run call
  cases call with
  | insert p text => exact h.splice ⟨p, p⟩ text ht
  | replace range text => exact h.splice range text ht
  | createMarker range =>
    refine h.of_still ht rfl hnext fun id f r ha => ⟨ha.live, ?_⟩
    have hne := Nat.ne_of_lt (h.tracked.marker_lt ha.live)
    exact (Table.get?_insert_of_ne _ _ hne).symm.trans ha.marker
  | destroyMarker k =>
    exact h.of_still ht rfl hnext fun id f r ha => ⟨ha.live, Table.get?_of_get?_filter ha.marker⟩
  | destroyFold k =>
    have hstill : (s.editor.destroyFold k).text = s.editor.text ∧
        (s.editor.destroyFold k).markers = s.editor.markers := by
      unfold Editor.destroyFold
      split <;> exact ⟨rfl, rfl⟩
    exact h.of_still ht hstill.1 hnext fun id f r ha => ⟨ha.live, hstill.2 ▸ ha.marker⟩
  | _ => exact h.of_still ht rfl hnext fun id f r ha => ⟨ha.live, ha.marker⟩

/-- A number that is handed out and used for nothing. -/
lemma Filed.numberTaken (h : s.Filed) : s.numberTaken.Filed := by
  have htidy := h.tracked.tidy
  refine h.of_still ⟨?_, h.tracked.owners, h.tracked.index, ?_⟩ rfl (Nat.le_succ _)
    fun id f r ha => ⟨ha.live, ha.marker⟩
  · exact ⟨htidy.raise (Nat.le_succ _), fun d x hx => Nat.lt_succ_of_lt (htidy.decorated d x hx)⟩
  · intro id f hf
    obtain ⟨known, hfol⟩ := h.tracked.follows id f hf
    exact ⟨known, hfol.tracks, hfol.label, hfol.drawn, hfol.looks⟩

/-! ## New foldings -/

/-- Every range that is folded is there afterwards, under a new number. -/
lemma exists_get?_foldEach (ranges : List Range) {e : Editor}
    (hclip : ∀ q ∈ ranges, e.clipRange q = q) {q : Range} (hq : q ∈ ranges) :
    ∃ k, e.nextId ≤ k ∧ (PartialFold.foldEach e ranges).2.folds.get? k = some q := by
  induction ranges generalizing e with
  | nil => exact absurd hq (by simp)
  | cons p ranges ih =>
    rcases List.mem_cons.1 hq with rfl | hq
    · refine ⟨e.nextId, Nat.le_refl _, ?_⟩
      have hold := (foldEach_numbers ranges (e.fold q).2).2 e.nextId (Nat.lt_succ_self _)
      refine hold.trans ((Table.get?_insert_self _ _ _).trans ?_)
      rw [hclip q (List.mem_cons_self ..)]
    · obtain ⟨k, hk, hget⟩ := ih (e := (e.fold p).2) (fun q hq => hclip q (List.mem_cons_of_mem _ hq)) hq
      exact ⟨k, Nat.le_of_succ_le hk, hget⟩

/-- The line endings in the range of a request are folded, under new numbers. -/
lemma exists_get?_install {e : Editor} (hpos : 0 < request.preview.length)
    (hwidth : request.preview.length ≤
      (e.text.slice (e.clipRange request.range)).visualLength) {q : Range}
    (hq : q ∈ PartialFold.lineEndings e.text (e.clipRange request.range)) :
    ∃ k, e.nextId < k ∧ (e.install request).2.2.folds.get? k = some q := by
  have hholds := e.holds_clipRange request.range
  have hclip : ∀ p ∈ PartialFold.pieces e.text (e.clipRange request.range) request.preview.length,
      (e.createMarker request.range).2.clipRange p = p := by
    intro p hp
    obtain ⟨⟨hstart, hstop⟩, -, hlt, -⟩ :=
      PartialFold.laid_pieces hholds.start hholds.stop hpos hwidth p hp
    exact Editor.clipRange_eq (e := (e.createMarker request.range).2) hstart hstop (le_of_lt hlt)
  have hfolded := exists_get?_foldEach _ hclip (List.mem_append_left _ hq)
  unfold Editor.install
  dsimp only
  generalize PartialFold.foldEach (e.createMarker request.range).2 _ = folded at hfolded ⊢
  exact hfolded

lemma Filed.install (h : s.Filed) (request : FoldRequest) :
    ({ s with editor := (s.editor.install request).2.2 } : FoldedEditor).Filed := by
  obtain ⟨htext, hmarkers, -, -⟩ := install_numbers s.editor request
  refine h.of_still (h.tracked.install request) htext (s.editor.nextId_le_install request) ?_
  intro id f r ha
  have hne := Nat.ne_of_lt (h.tracked.marker_lt ha.live)
  have hm : (s.editor.install request).2.2.markers.get? f.marker = some ⟨r, true⟩ := ha.marker
  rw [hmarkers, Table.get?_insert_of_ne _ _ hne] at hm
  exact ⟨ha.live, hm⟩

lemma Filed.text_prepared (h : s.Filed) (request : FoldRequest) :
    (s.prepared request).editor.text = s.editor.text :=
  (h.install request).tracked.remains_process.text.trans (install_numbers s.editor request).1

/-- The line endings inside a new folding are folded, and the folds are there when it is adopted. -/
lemma Filed.flat_prepared (h : s.Filed) (hpos : 0 < request.preview.length)
    (hwidth : request.preview.length ≤
      (s.editor.text.slice (s.editor.clipRange request.range)).visualLength) :
    ((s.prepared request).editor.screenRange (s.editor.clipRange request.range)).start.row =
      ((s.prepared request).editor.screenRange (s.editor.clipRange request.range)).stop.row := by
  have hkept := (h.install request).process.tracked.tidy.toKept
  have hremains := (h.install request).tracked.remains_process
  have htext := h.text_prepared request
  have hholds := s.editor.holds_clipRange request.range
  rw [← htext] at hholds
  refine Editor.row_screenRange_of_lineEndings hkept hholds fun q hq => ?_
  obtain ⟨k, hk, hget⟩ := exists_get?_install hpos hwidth (htext ▸ hq)
  refine Table.mem_values_iff.2 ⟨k, ?_⟩
  rcases hremains.folds k with heq | ⟨-, id, g, hg, -, hmem⟩
  · exact heq.trans hget
  · -- a fold that goes belongs to a folding that was there before
    exact absurd (h.handedOut id g k hg hmem) (Nat.lt_asymm hk)

/-- A folding on a marker of its own that is drawn on one row is adopted. -/
lemma Filed.adopt (h : s.Filed) {marker : MarkerId} {folds : PartialFold} {label : Label}
    (hadopt : s.adopt request marker folds label = (info, s')) (ht : s'.Tracked [])
    (hshown : label.isHidden = false) (hnormal : label.style = .normal)
    (hm : s.editor.markers.get? marker = some ⟨r, true⟩) (hrow : r.stop.row ≤ s.editor.text.lastRow)
    (hflat : (s.editor.screenRange r).start.row = (s.editor.screenRange r).stop.row)
    (hfolds : ∀ k ∈ folds.folds, k < s.editor.nextId) : s'.Filed := by
  obtain ⟨f, hlive, hmarker, hfolds', -, -, -, hscreen⟩ :=
    adopt_looks s request marker folds hshown hnormal
  have hdraws : s.editor.OnlyDraws (s.adopt request marker folds label).2.editor :=
    label.onlyDraws_styled _ _
  rw [hadopt] at hlive hdraws
  obtain ⟨d, n, hnext, heditor⟩ := hdraws
  dsimp only at hlive heditor
  have hrange : s.editor.markerRange? marker = some r := by
    rw [Editor.markerRange?, hm]
    rfl
  rw [Editor.markerScreenRange?, hrange, Option.map_some, Option.getD_some] at hscreen
  -- the new folding, or one that was there before
  have hcases : ∀ id g, s'.live.get? id = some g → g = f ∨ s.live.get? id = some g := by
    intro id g hg
    rw [hlive, Table.get?_insert] at hg
    split at hg
    · exact .inl (Option.some.inj hg).symm
    · exact .inr hg
  refine ⟨ht, ?_, ?_, ?_⟩
  · intro id g hg
    rcases hcases id g hg with rfl | hg
    · rw [hscreen]
      exact hflat
    · exact h.flat id g hg
  · intro id g q ha
    have hq : s.editor.markers.get? g.marker = some ⟨q, true⟩ := by
      have hmarkers := ha.marker
      rwa [heditor] at hmarkers
    rw [heditor]
    rcases hcases id g ha.live with rfl | hg
    · rw [hmarker, hm] at hq
      obtain rfl : r = q := congrArg Marker.range (Option.some.inj hq)
      exact hrow
    · exact h.within id g q ⟨hg, hq⟩
  · intro id g k hg hk
    rw [heditor]
    refine Nat.lt_of_lt_of_le ?_ hnext
    rcases hcases id g hg with rfl | hg
    · exact hfolds k (hfolds' ▸ hk)
    · exact h.handedOut id g k hg hk

/-- A folding that is made is drawn on one row: its line endings are folded when it is drawn. -/
lemma Filed.createFolding (h : s.Filed) (hid : s.live.get? request.id = none)
    (hpos : 0 < request.preview.length) (hc : s.createFolding request = .ok (info, s')) :
    s'.Filed := by
  have ht' := (h.tracked.createFolding hid hc).1
  obtain ⟨hwidth, hadopt⟩ := createFolding_ok hc
  have hbefore := h.process
  have hinstall : (s.installed request).Filed := hbefore.install request
  have hremains := hinstall.tracked.remains_process
  obtain ⟨hmarker, -, -, hshown, -⟩ := hbefore.tracked.install_spec request
  have hkept : (s.installed request).process.editor.markers.get? s.process.editor.nextId =
      some ⟨s.process.editor.clipRange request.range, true⟩ :=
    (hinstall.tracked.frame_process.markers _ hbefore.tracked.owners_nextId).trans hmarker
  have hrow : (s.process.editor.clipRange request.range).stop.row ≤
      (s.installed request).process.editor.text.lastRow := by
    rw [show (s.installed request).process.editor.text = s.process.editor.text from
      hbefore.text_prepared request]
    exact (addressable_iff.1 (s.process.editor.holds_clipRange request.range).stop).1
  have hfolds : ∀ k ∈ (s.process.editor.install request).1.folds,
      k < (s.installed request).process.editor.nextId := by
    intro k hk
    have hlt := ((install_numbers s.process.editor request).2.2.1 k hk).2
    exact Nat.lt_of_lt_of_le hlt hremains.nextId
  exact hinstall.process.adopt hadopt ht' hshown rfl hkept hrow
    (hbefore.flat_prepared hpos hwidth) hfolds

lemma Filed.configure (h : s.Filed) (settings : Settings) (enabled : Bool) :
    ({ s with
      editor := { s.editor with settings }
      highlighter := { s.highlighter with enabled } } : FoldedEditor).Filed where
  tracked := h.tracked.configure settings enabled
  flat := h.flat
  within := fun id f r ha => h.within id f r ⟨ha.live, ha.marker⟩
  handedOut := h.handedOut

lemma Filed.afterBatch (h : s.Filed) (requests : List FoldRequest) :
    (s.afterBatch requests).Filed := by
  unfold FoldedEditor.afterBatch
  split
  · rename_i results s' hbatch
    obtain ⟨maxLineLength, t, heach, rfl⟩ := foldAll_ok hbatch
    have hstart : s.batchStart.Filed := h.process.configure _ _
    have hend : t.Filed := foldEach_induction (P := fun _ t => t.Filed) (fun _ _ _ ht => ht)
      (fun _ _ _ _ _ ht hid hpos hcreate => ht.createFolding hid hpos hcreate) heach hstart
    exact hend.configure _ _
  · exact h

/-- Taking all foldings down leaves nothing unfiled. -/
lemma Filed.unfoldAll (h : s.Filed) : s.unfoldAll.Filed := by
  have hcleared := h.tracked.cleared
  have hnone : ∀ id, s.unfoldAll.live.get? id = none := fun id =>
    hcleared.remains_process.fresh (s.live_cleared id)
  refine ⟨hcleared.process, fun id f hf => ?_, fun id f r ha => ?_, fun id f k hf => ?_⟩
  · exact absurd hf (by simp [hnone])
  · exact absurd ha.live (by simp [hnone])
  · exact absurd hf (by simp [hnone])

/-! ## Hosts and foldings taking turns -/

/-- What the host may ask of the editor: it takes no notifications out of the queues and destroys no
marker of a folding. -/
def Admits (s : FoldedEditor) : EditorCall → Prop
  | .destroyMarker k => s.owners.get? k = none
  | .drainMarkerChanges | .drainCursorMoves => False
  | _ => True

/-- The states that the host and the foldings lead to, taking turns in any order. -/
inductive Interleaved : FoldedEditor → Prop where
  | start (text : Text) (settings : Settings) : Interleaved { editor := { text, settings } }
  | host {s : FoldedEditor} {call : EditorCall} :
      Interleaved s → s.Admits call → Interleaved (s.host fun e => call.run e)
  | process {s : FoldedEditor} : Interleaved s → Interleaved s.process
  | unfoldAll {s : FoldedEditor} : Interleaved s → Interleaved s.unfoldAll
  | foldAll {s : FoldedEditor} (requests : List FoldRequest) :
      Interleaved s → Interleaved (s.afterBatch requests)

/-- A call of the host is admitted, and so it is permitted where it does not draw. -/
lemma Redrawn.permits (h : s.Redrawn .any t) (ha : s.Admits call) (hc : ¬DrawsOnly call) :
    t.Permits call := by
  have howners : t.owners = s.owners := by
    rw [h.2]
  cases call with
  | destroyMarker k =>
    show t.owners.get? k = none
    rw [howners]
    exact ha
  | decorate | setStyle | destroyDecoration => exact absurd trivial hc
  | drainMarkerChanges | drainCursorMoves => exact ha
  | _ => trivial

/-- Whatever the host draws, the state is that of one which draws nothing, apart from the
decorations. -/
lemma Filed.exists_host (h : t.Filed) (hr : s.Redrawn .any t) (ha : s.Admits call) :
    ∃ t', (s.host fun e => call.run e).Redrawn .any t' ∧ t'.Filed := by
  by_cases hc : DrawsOnly call
  · rcases hr.host_of_drawsOnly hc with hsame | htaken
    · exact ⟨t, hsame, h⟩
    · exact ⟨t.numberTaken, htaken, h.numberTaken⟩
  · exact ⟨_, hr.host call, h.host (hr.permits ha hc)⟩

lemma filed_start (text : Text) (settings : Settings) :
    ({ editor := { text, settings } } : FoldedEditor).Filed where
  tracked := (Reached.start text settings).tracked
  flat := fun _ _ hf => absurd hf (by simp [Table.empty, Table.get?, Table.find?])
  within := fun _ _ _ ha => absurd ha.live (by simp [Table.empty, Table.get?, Table.find?])
  handedOut := fun _ _ _ hf => absurd hf (by simp [Table.empty, Table.get?, Table.find?])

/-- In every state that the host and the foldings lead to, the foldings are filed, once decorations
that the host has put in the way are disregarded. -/
theorem Interleaved.exists_filed (h : s.Interleaved) : ∃ t, s.Redrawn .any t ∧ t.Filed := by
  induction h with
  | start text settings => exact ⟨_, .refl _, filed_start text settings⟩
  | host _ ha ih =>
    obtain ⟨t, hr, hfiled⟩ := ih
    exact hfiled.exists_host hr ha
  | process _ ih =>
    obtain ⟨t, hr, hfiled⟩ := ih
    exact ⟨_, hr.process, hfiled.process⟩
  | unfoldAll _ ih =>
    obtain ⟨t, hr, hfiled⟩ := ih
    exact ⟨_, hr.unfoldAll, hfiled.unfoldAll⟩
  | foldAll requests _ ih =>
    obtain ⟨t, hr, hfiled⟩ := ih
    exact ⟨_, hr.afterBatch requests, hfiled.afterBatch requests⟩

/-- Outside of batches moves of the cursor are heeded. -/
lemma Interleaved.enabled (h : s.Interleaved) : s.highlighter.enabled = true := by
  have hconfigured : ∀ {s : FoldedEditor}, s.highlighter.enabled = true →
      s.Configured s.editor.settings true := fun h => ⟨rfl, h⟩
  induction h with
  | start => rfl
  | host _ _ ih => exact ih
  | process _ ih => exact (hconfigured ih).process.2
  | unfoldAll _ ih => exact (hconfigured ih).unfoldAll.2
  | foldAll requests _ ih =>
    unfold afterBatch
    split
    · rename_i hbatch
      exact ((hconfigured ih).foldAll hbatch).2
    · exact ih

end FoldedEditor

/-! ## Moves of the cursor -/

/-- What looking at a folding over a range makes of it when the cursor goes from `c` to `c'`: one
that is shown is highlighted if the cursor comes in, and no more if it goes out. -/
def Folding.examined (f : Folding) (r : Range) (c c' : Point) : Folding :=
  if f.label.isHidden then f
  else if r.contains c && !r.contains c' then f.highlight false
  else if r.contains c' && !r.contains c then f.highlight true
  else f

namespace FoldedEditor

variable {s t : FoldedEditor} {id : FoldingId} {f : Folding} {r : Range} {m : CursorMove} {row : Nat}

/-- Looking at two rows is looking at a folding, if a cursor in its range is drawn on its row. -/
lemma underMove_eq_examined (hshown : f.label.isHidden = false)
    (hrow : s.highlighter.index.rowOf.get? id = some row) (hrange : s.rangeOf? id = some r)
    (hold : r.contains m.old = true → m.oldScreen.row = row)
    (hnew : r.contains m.new = true → m.newScreen.row = row) :
    s.underMove m id f = f.examined r m.old m.new := by
  unfold underMove Folding.examined
  simp only [hshown, hrow, hrange, Option.any_some, Highlighter.enters, Highlighter.leaves,
    Option.some.injEq, Bool.false_eq_true, if_false]
  cases hin : r.contains m.old with
  | true => cases hin' : r.contains m.new <;> simp [hold hin]
  | false =>
    cases hin' : r.contains m.new with
    | true => simp [hnew hin']
    | false => simp

/-- A cursor that stays where it is changes nothing. -/
lemma examined_self (f : Folding) (r : Range) (c : Point) : f.examined r c c = f := by
  unfold Folding.examined
  cases r.contains c <;> simp

/-- A cursor inside a folding that is shown is drawn on the row under which it is filed. -/
lemma Filed.row_screenPoint (h : s.Filed) (ha : s.At id f r)
    (hvisible : s.LooksVisible id f (s.editor.screenRange r)) {c : Point}
    (hc : r.contains c = true) :
    (s.editor.screenPoint c).row = (s.editor.screenRange r).start.row :=
  h.tracked.tidy.toKept.row_screenPoint (h.within id f r ha)
    (row_of_isTranslationOf hvisible.1 (h.flat id f ha.live)) hc

/-- After a move of the cursor each folding is as if it had been looked at, whatever row it is filed
under. -/
lemma Filed.live_setCursor (h : s.Filed) (hon : s.highlighter.enabled = true) (hq : s.Quiet)
    (p : Point) (ha : s.At id f r) :
    (s.host fun e => EditorCall.run e (.setCursor p)).process.live.get? id =
      some (f.examined r s.editor.cursor (s.editor.text.clip p)) := by
  rw [h.tracked.get?_live_setCursor hon hq p id, ha.live, Option.map_some]
  congr 1
  cases hmove : s.editor.cursorMoveSince (EditorCall.run s.editor (.setCursor p)) with
  | none =>
    -- the cursor is where it is to go
    have hcursor : s.editor.text.clip p = s.editor.cursor := by
      unfold Editor.cursorMoveSince at hmove
      simp only [ite_eq_left_iff] at hmove
      by_contra hne
      exact absurd (hmove fun heq => hne heq.1) (by simp)
    rw [hcursor]
    exact (examined_self f r _).symm
  | some m =>
    have hmem : m ∈ (s.editor.cursorMoveSince (EditorCall.run s.editor (.setCursor p))).toList := by
      rw [hmove, Option.toList_some, List.mem_singleton]
    obtain ⟨hold, hnew, holdScreen, hnewScreen⟩ := Editor.mem_cursorMoveSince hmem
    have hnew' : m.new = s.editor.text.clip p := hnew
    rw [Option.elim_some]
    rw [← hold, ← hnew']
    rcases h.tracked.looks_of_quiet hq ha with hvisible | ⟨-, hcollapsed⟩
    · refine underMove_eq_examined hvisible.2.1 hvisible.2.2 ha.rangeOf? (fun hin => ?_)
        fun hin => ?_
      · rw [holdScreen, ← hold]
        exact h.row_screenPoint ha hvisible hin
      · rw [hnewScreen, ← hnew]
        exact h.row_screenPoint ha hvisible hin
    · rw [underMove_of_isHidden hcollapsed.2.1]
      unfold Folding.examined
      rw [if_pos hcollapsed.2.1]

/-- **The index loses nothing.** Whatever the host and the foldings have done, when nothing is
queued a move of the cursor takes no folding down, moves none, and does to each what looking at it
would, although only two rows are looked at. -/
theorem Interleaved.setCursor_examines_all (h : s.Interleaved) (hq : s.editor.hasPending = false)
    (p : Point) :
    let s' := (s.host fun e => e.setCursor p).process
    s'.editor.hasPending = false ∧ s'.editor.cursor = s.editor.text.clip p ∧
      (∀ id, s.live.get? id = none → s'.live.get? id = none) ∧
      ∀ id f, s.live.get? id = some f → ∃ r, s.rangeOf? id = some r ∧ s'.rangeOf? id = some r ∧
        s'.live.get? id = some (f.examined r s.editor.cursor s'.editor.cursor) := by
  intro s'
  have hq' : s.Quiet := by simpa [Editor.hasPending, Quiet] using hq
  have hcursor : s'.editor.cursor = s.editor.text.clip p :=
    ((s.host fun e => e.setCursor p).process_leavesHost 0).cursor
  -- a state that differs in what is drawn alone, and what becomes of it
  obtain ⟨t, hr, hfiled⟩ := h.exists_filed
  have hr' : s'.Redrawn .any (t.host fun e => EditorCall.run e (.setCursor p)).process :=
    (hr.host (.setCursor p)).process
  have hon : t.highlighter.enabled = true := by
    rw [hr.2]
    exact h.enabled
  have htq : t.Quiet := ⟨hr.queues.1.trans hq'.1, hr.queues.2.trans hq'.2⟩
  have hbefore : t.editor.cursor = s.editor.cursor ∧ t.editor.text = s.editor.text :=
    ⟨hr.1.cursor, hr.1.text⟩
  have ht := hfiled.tracked.host (.setCursor p) trivial
  refine ⟨hasPending_eq_false_iff.2 (quiet_process _), hcursor, fun id hid => ?_, fun id f hf => ?_⟩
  · rw [← hr'.live, hfiled.tracked.get?_live_setCursor hon htq p id, hr.live, hid]
    rfl
  · obtain ⟨r, ha⟩ := hfiled.tracked.exists_at htq (hr.live ▸ hf)
    have hlive := hfiled.live_setCursor hon htq p ha
    have hat := (ht.remains_process.at ⟨ha.live, ha.marker⟩ hlive).1
    rw [hbefore.1, hbefore.2] at hlive
    refine ⟨r, (hr.rangeOf? id).symm.trans ha.rangeOf?,
      (hr'.rangeOf? id).symm.trans hat.rangeOf?, ?_⟩
    rw [hcursor, ← hr'.live]
    exact hlive

/-- The cursor leaves one folding for the second line of another, and a third is under a fold of the
host. The host has also drawn at the number that the marker of the second folding got later. -/
theorem setCursor_examines_all_entered :
    let start : FoldedEditor := { editor := { text := "abcd\nefgh\nijkl\nmnop".toList } }
    let drawn := start.host (EditorCall.decorate 6 ⟨['!'], "host"⟩).run
    let folded := drawn.afterBatch [⟨1, ⟨⟨0, 1⟩, ⟨1, 2⟩⟩, ['p', 'q']⟩,
      ⟨2, ⟨⟨2, 0⟩, ⟨2, 4⟩⟩, ['r', 's']⟩, ⟨3, ⟨⟨3, 0⟩, ⟨3, 3⟩⟩, ['t', 'u']⟩]
    let moved := folded.host (EditorCall.setCursor ⟨2, 1⟩).run
    let s := (moved.host (EditorCall.fold ⟨⟨3, 0⟩, ⟨3, 4⟩⟩).run).process
    s.Interleaved ∧ s.editor.hasPending = false ∧
      (s.live.map fun f => (f.marker, f.label.isHidden, f.info.highlighted)).entries =
        [(1, 2, false, false), (2, 6, false, true), (3, 9, true, false)] ∧
      ((s.host fun e => e.setCursor ⟨1, 1⟩).process.live.map fun f =>
        (f.label.isHidden, f.info.highlighted)).entries =
          [(1, false, true), (2, false, false), (3, true, false)] ∧
      ∃ f r, s.live.get? 1 = some f ∧ s.rangeOf? 1 = some r ∧
        (s.host fun e => e.setCursor ⟨1, 1⟩).process.live.get? 1 = some (f.examined r
          s.editor.cursor (s.host fun e => e.setCursor ⟨1, 1⟩).process.editor.cursor) := by
  intro start drawn folded moved s
  have hdrawn : drawn.Interleaved := .host (.start _ _) trivial
  have hfolded : folded.Interleaved := .foldAll _ hdrawn
  have hmoved : moved.Interleaved := .host hfolded trivial
  have hs : s.Interleaved := .process (.host hmoved trivial)
  have hquiet : s.editor.hasPending = false := by decide +kernel
  have hlive : (s.live.get? 1).isSome = true := by decide +kernel
  obtain ⟨f, hf⟩ := Option.isSome_iff_exists.1 hlive
  obtain ⟨r, hr, -, hexamined⟩ := (hs.setCursor_examines_all hquiet ⟨1, 1⟩).2.2.2 1 f hf
  exact ⟨hs, hquiet, by decide +kernel, by decide +kernel, f, r, hf, hr, hexamined⟩

end FoldedEditor

end TemplateFolding
