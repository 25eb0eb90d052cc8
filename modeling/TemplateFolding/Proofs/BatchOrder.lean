import TemplateFolding.Proofs.FreeHosts
import TemplateFolding.Proofs.PaintOrder

/-!
# Batches in any order

A batch is served one request after the other, and each folding that is made moves those behind it
on the screen. What is moved keeps its shape, because the folds of one request keep out of the
ranges of the others. So the notifications of a batch are recorded and nothing else follows from
them, and after the batch the screen shows what was granted, whatever the order in which it was
asked for.
-/

namespace TemplateFolding

open Text Point

/-! ## Notifications that are only recorded -/

/-- In a queue with one notification for each marker, each is found by its marker. -/
lemma MarkerChange.of?_of_mem {queue : List MarkerChange} {c : MarkerChange}
    (hd : queue.Pairwise fun c d => c.marker ≠ d.marker) (hc : c ∈ queue) :
    of? c.marker queue = some c := by
  induction queue with
  | nil => exact absurd hc (by simp)
  | cons d rest ih =>
    obtain ⟨hne, hrest⟩ := List.pairwise_cons.1 hd
    rcases List.mem_cons.1 hc with rfl | hc
    · rw [of?_cons, if_pos rfl]
    · rw [of?_cons, if_neg (hne c hc), ih hrest hc]

/-- A label that is drawn is not drawn again. -/
lemma Label.draw_of_shown {l : Label} (h : l.isHidden = false) (e : Editor) :
    l.draw e = (l, e) := by
  unfold Label.draw
  unfold Label.isHidden at h
  split
  · rfl
  · rename_i hnone
    rw [hnone] at h
    exact absurd h (by simp)

/-- A folding without its record of what happened last. -/
def Folding.unrecorded (f : Folding) : Folding :=
  { f with info := { f.info with lastEvent := .created } }

namespace FoldedEditor

variable {s s' s'' : FoldedEditor} {id : FoldingId} {f f' : Folding} {r : Range}

/-- From `s` to `s'` it was only recorded what happened to the foldings, and where they stand. -/
structure Recorded (s s' : FoldedEditor) : Prop where
  editor : s'.editor = s.editor
  owners : s'.owners = s.owners
  retired : s'.retired = s.retired
  enabled : s'.highlighter.enabled = s.highlighter.enabled
  live : ∀ id, (s'.live.get? id).map (·.unrecorded) = (s.live.get? id).map (·.unrecorded)

namespace Recorded

lemma refl (s : FoldedEditor) : s.Recorded s := ⟨rfl, rfl, rfl, rfl, fun _ => rfl⟩

lemma trans (h : s.Recorded s') (h' : s'.Recorded s'') : s.Recorded s'' where
  editor := h'.editor.trans h.editor
  owners := h'.owners.trans h.owners
  retired := h'.retired.trans h.retired
  enabled := h'.enabled.trans h.enabled
  live id := (h'.live id).trans (h.live id)

/-- A folding was there before if it was only recorded what happened to it. -/
lemma exists_live (h : s.Recorded s') (hf' : s'.live.get? id = some f') :
    ∃ f, s.live.get? id = some f ∧ f.unrecorded = f'.unrecorded := by
  have hlive := h.live id
  rw [hf'] at hlive
  exact Option.map_eq_some_iff.1 hlive.symm

/-- An event is recorded with one folding. -/
lemma record (hf : s.live.get? id = some f) (event : FoldingEvent) (highlighter : Highlighter)
    (henabled : highlighter.enabled = s.highlighter.enabled) :
    s.Recorded { s with
      live := s.live.insert id { f with info := { f.info with lastEvent := event } }
      highlighter } where
  editor := rfl
  owners := rfl
  retired := rfl
  enabled := henabled
  live j := by
    rw [Table.get?_insert]
    split_ifs with hj
    · rw [hj, hf]
      rfl
    · rfl

end Recorded

/-- The folding that a notification concerns is shown, and the notification tells of its first
shape. -/
def Unshaken (s : FoldedEditor) (c : MarkerChange) : Prop :=
  ∀ id f, s.owners.get? c.marker = some id → s.live.get? id = some f →
    f.label.isHidden = false ∧ c.valid = true ∧ f.initialScreen.isTranslationOf c.new = true

/-- Recording what happens to foldings shakes none. -/
lemma Unshaken.of_recorded {c : MarkerChange} (h : s.Unshaken c) (hs : s.Recorded s') :
    s'.Unshaken c := by
  intro id f' howner hf'
  rw [hs.owners] at howner
  obtain ⟨f, hf, heq⟩ := hs.exists_live hf'
  obtain ⟨-, -, hlabel, hscreen, -⟩ := Folding.mk.inj heq
  rw [← hlabel, ← hscreen]
  exact h id f howner hf

/-- A notification that does not shake its folding is only recorded. -/
lemma Unshaken.recorded_onMarkerChange {c : MarkerChange} (h : s.Unshaken c) :
    s.Recorded (s.onMarkerChange c) := by
  have houtcome : ∀ {id f outcome}, s.Concerns c id f outcome →
      outcome = .becameVisible ∨ outcome = .translated := by
    intro id f outcome hc
    obtain ⟨-, hvalid, hshape⟩ := h id f hc.owner hc.live
    have hclassify := hc.outcome
    simp only [Transition.classify, hvalid, hshape] at hclassify
    by_cases hpoint : c.old.isPoint = true <;> simp_all
  refine onMarkerChange_elim s c ?_ ?_ ?_ ?_ ?_
  · exact fun _ => .refl s
  · exact fun id f hc => .record hc.live .moved (s.highlighter.manage id c.new.start.row) rfl
  · intro id f hc
    unfold FoldedEditor.followVisible
    rw [Label.draw_of_shown (h id f hc.owner hc.live).1]
    exact .record hc.live .becameVisible (s.highlighter.manage id c.new.start.row) rfl
  · exact fun id f hc => absurd (houtcome hc) (by simp)
  · intro id f outcome hc hdown
    rcases houtcome hc with rfl | rfl <;> simp at hdown

lemma recorded_onMarkerChanges {changes : List MarkerChange} (h : ∀ c ∈ changes, s.Unshaken c) :
    s.Recorded (changes.foldl FoldedEditor.onMarkerChange s) :=
  List.foldlRecOn _ _ (.refl s) fun _ ht c hc =>
    ht.trans ((h c hc).of_recorded ht).recorded_onMarkerChange

/-- While highlighting is suspended, moves of the cursor are passed over. -/
lemma onCursorMove_of_suspended (hoff : s.highlighter.enabled = false) (m : CursorMove) :
    s.onCursorMove m = s := by
  unfold FoldedEditor.onCursorMove Highlighter.onCursorMove
  rw [hoff]
  rfl

/-- While highlighting is suspended, moves of the cursor do nothing. -/
lemma onCursorMoves_of_suspended (hoff : s.highlighter.enabled = false) (moves : List CursorMove) :
    moves.foldl FoldedEditor.onCursorMove s = s :=
  List.foldlRecOn _ _ (motive := fun t => t = s) rfl fun t ht m _ => by
    rw [ht, onCursorMove_of_suspended hoff]

/-- What is queued concerns only foldings in shape. -/
lemma InShape.unshaken (h : s.InShape) (ht : s.Tracked [])
    (hshown : ∀ id f, s.live.get? id = some f → f.label.isHidden = false) {c : MarkerChange}
    (hc : c ∈ s.editor.markerChanges) : s.Unshaken c := by
  intro id f howner hf
  obtain ⟨g, hg, hmarker⟩ := (ht.owners c.marker id).1 howner
  obtain rfl := Option.some.inj (hf.symm.trans hg)
  obtain ⟨r, ha, hshape⟩ := h id f hf
  obtain ⟨known, hfol⟩ := ht.follows id f hf
  obtain ⟨m, hm, hacc⟩ := hfol.tracks
  obtain rfl := Option.some.inj (ha.marker.symm.trans hm)
  have hpending : s.editor.pending? f.marker = some c := by
    rw [hmarker]
    exact MarkerChange.of?_of_mem ht.tidy.distinct hc
  unfold Editor.Accounts at hacc
  rw [hpending] at hacc
  obtain ⟨-, hvalid, -, hnew⟩ := hacc
  exact ⟨hshown id f hf, hvalid, by rw [hnew rfl]; exact hshape⟩

/-- While highlighting is suspended, applying what is queued only records it if all foldings are
shown and in shape. -/
theorem InShape.recorded_process (h : s.InShape) (ht : s.Tracked [])
    (hoff : s.highlighter.enabled = false)
    (hshown : ∀ id f, s.live.get? id = some f → f.label.isHidden = false) :
    s.emptied.Recorded s.process := by
  have hround : s.emptied.Recorded s.processRound := by
    have hfollowed : s.emptied.Recorded s.followed :=
      recorded_onMarkerChanges fun c hc => h.unshaken ht hshown hc
    rw [processRound_eq, onCursorMoves_of_suspended (hfollowed.enabled.trans hoff)]
    exact hfollowed
  unfold FoldedEditor.process FoldedEditor.processRounds
  split_ifs with hpending
  · have hquiet : s.processRound.Quiet := by
      unfold Quiet
      rw [hround.editor]
      exact ⟨rfl, rfl⟩
    rw [processRounds_of_quiet hquiet]
    exact hround
  · have hquiet : s.Quiet := by
      unfold Quiet
      simpa [Editor.hasPending] using hpending
    rw [hquiet.emptied_eq]
    exact .refl s

end FoldedEditor

/-! ## Requests that keep apart -/

namespace FoldRequest

variable {t : Text} {folds : List Range} {p q : FoldRequest} {granted granted' : List FoldRequest}

/-- The folds that a request asks for. -/
def pieces (t : Text) (q : FoldRequest) : List Range :=
  PartialFold.pieces t q.range q.preview.length

/-- What is drawn for a request. -/
def drawing (q : FoldRequest) : Drawing := ⟨q.preview, some q.range⟩

/-- Requests with room for their previews, in ranges that share at most an end. -/
structure KeepApart (t : Text) (granted : List FoldRequest) : Prop where
  room : ∀ q ∈ granted, q.HasRoom t
  apart : granted.Pairwise fun p q => p.range.stop ≤ q.range.start ∨ q.range.stop ≤ p.range.start

/-- Whether requests keep apart is not a matter of their order. -/
lemma KeepApart.perm (h : KeepApart t granted) (hperm : granted'.Perm granted) :
    KeepApart t granted' where
  room := fun q hq => h.room q (hperm.mem_iff.1 hq)
  apart := (hperm.pairwise_iff fun h => h.symm).2 h.apart

lemma KeepApart.left (h : KeepApart t (granted ++ granted')) : KeepApart t granted where
  room := fun q hq => h.room q (List.mem_append_left _ hq)
  apart := (List.pairwise_append.1 h.apart).1

/-- The folds of the other requests stand clear of the range of one. -/
lemma KeepApart.clearOf (h : KeepApart t (q :: granted)) :
    ClearOf t q.range (granted.flatMap (·.pieces t)) := by
  obtain ⟨hapart, -⟩ := List.pairwise_cons.1 h.apart
  have hlaid : ∀ f ∈ granted.flatMap (·.pieces t), ∃ p ∈ granted,
      (t.Addressable f.start ∧ t.Addressable f.stop) ∧
        p.range.start ≤ f.start ∧ f.start < f.stop ∧ f.stop ≤ p.range.stop := by
    intro f hf
    obtain ⟨p, hp, hpiece⟩ := List.mem_flatMap.1 hf
    have hroom := h.room p (List.mem_cons_of_mem _ hp)
    exact ⟨p, hp, PartialFold.laid_pieces hroom.start hroom.stop hroom.pos hroom.width f hpiece⟩
  refine ⟨fun f hf => ?_, fun f hf => ?_, fun f hf _ => ?_⟩
  · obtain ⟨p, -, -, -, hlt, -⟩ := hlaid f hf
    exact le_of_lt hlt
  · obtain ⟨p, -, hends, -⟩ := hlaid f hf
    exact hends
  · obtain ⟨p, hp, -, hstart, -, hstop⟩ := hlaid f hf
    exact (hapart p hp).symm.imp (le_trans hstop) fun hle => le_trans hle hstart

/-- Where all requests are folded, each takes as many columns as its preview has. -/
lemma KeepApart.screenPoint_stop (h : KeepApart t granted)
    (hfolds : folds.Perm (granted.flatMap (·.pieces t))) (hq : q ∈ granted) :
    screenPoint t folds q.range.stop = ⟨(screenPoint t folds q.range.start).row,
      (screenPoint t folds q.range.start).column + q.preview.length⟩ := by
  have hperm := List.perm_cons_erase hq
  have hroom := h.room q hq
  refine screenPoint_pieces hroom.start hroom.stop (h.perm hperm.symm).clearOf hroom.pos hroom.width
    ?_
  refine (hfolds.trans (hperm.flatMap_right _)).trans ?_
  rw [List.flatMap_cons]
  exact List.perm_append_comm

/-- A request among others that keep apart takes as many columns as its preview. -/
lemma KeepApart.hasBreadth {e : Editor} (h : KeepApart t granted) (htext : e.text = t)
    (hfolds : e.folds.values = granted.flatMap (·.pieces t)) (hq : q ∈ granted) :
    (e.screenRange q.range).HasBreadth q.preview.length := by
  obtain rfl := htext
  exact h.screenPoint_stop (.of_eq hfolds) hq

end FoldRequest

namespace Editor

variable {e e' : Editor} {granted granted' : List FoldRequest} {request : FoldRequest}

/-- The previews of requests that are all folded do not get into each other's way. -/
lemma Kept.pairwise_swaps (hk : e.Kept) (h : FoldRequest.KeepApart e.text granted)
    (hfolds : e.folds.values = granted.flatMap (·.pieces e.text)) :
    (granted.map (·.drawing)).Pairwise (Drawing.Swaps e.text e.folds.values) := by
  -- what is drawn for one request ends before another one begins
  have hbefore : ∀ p ∈ granted, ∀ q ∈ granted, p.range.stop ≤ q.range.start →
      Drawing.Swaps e.text e.folds.values p.drawing q.drawing := by
    intro p hp q hq hle
    have hstop := h.screenPoint_stop (.of_eq hfolds) hp
    have hrow : q.range.start.row ≤ e.text.lastRow := (addressable_iff.1 (h.room q hq).start).1
    have hscreen : e.screenPoint p.range.stop ≤ e.screenPoint q.range.start :=
      hk.screenPoint_le hle hrow
    rw [screenPoint, hstop, screenPoint, Point.le_iff] at hscreen
    refine Drawing.swaps_of_apart ?_
    rcases hscreen with hlt | ⟨-, hcolumn⟩
    · exact .inl (Nat.ne_of_lt hlt)
    · exact .inr hcolumn
  refine List.pairwise_map.2 (h.apart.imp_of_mem fun {p q} hp hq hpq => ?_)
  rcases hpq with hpq | hqp
  · exact hbefore p hp q hq hpq
  · exact symm (hbefore q hq p hp hqp)

/-- What is displayed does not depend on the order of requests that are all folded. -/
lemma Kept.paintedLines_congr (hk : e.Kept) (h : FoldRequest.KeepApart e.text granted)
    (hperm : granted'.Perm granted) (htext : e'.text = e.text)
    (hfolds : e.folds.values = granted.flatMap (·.pieces e.text))
    (hfolds' : e'.folds.values = granted'.flatMap (·.pieces e.text)) {before : List Drawing}
    (hdrawings : e.drawings = before ++ granted.map (·.drawing))
    (hdrawings' : e'.drawings = before ++ granted'.map (·.drawing)) :
    e'.foldRanges = e.foldRanges ∧ e'.screenLines = e.screenLines ∧
      e'.paintedLines = e.paintedLines := by
  have hvalues : e'.folds.values.Perm e.folds.values := by
    rw [hfolds, hfolds']
    exact hperm.flatMap_right _
  have heffective := effectiveFolds_congr hvalues
  have hlines : e'.screenLines = e.screenLines := by
    unfold Editor.screenLines TemplateFolding.screenLines
    rw [htext, heffective]
  refine ⟨Range.sort_congr hvalues, hlines, ?_⟩
  have hdraw : Drawing.draw e'.text e'.folds.values = Drawing.draw e.text e.folds.values := by
    unfold Drawing.draw TemplateFolding.screenPoint
    rw [htext, heffective]
  rw [paintedLines_eq_foldl, paintedLines_eq_foldl, hdrawings, hdrawings', hdraw, hlines,
    List.foldl_append, List.foldl_append]
  exact Drawing.foldl_draw_perm (hperm.map _) (hk.pairwise_swaps h hfolds) _

/-! ## What a new folding adds -/

/-- The editor with its queues emptied. -/
def drained (e : Editor) : Editor :=
  { e with markerChanges := [], cursorMoves := [] }

lemma cursor_drained (e : Editor) : e.drained.cursor = e.cursor := rfl

lemma folds_drained (e : Editor) : e.drained.folds = e.folds := rfl

lemma markers_drained (e : Editor) : e.drained.markers = e.markers := rfl

lemma drawings_drained (e : Editor) : e.drained.drawings = e.drawings := rfl

lemma screenRange_drained (e : Editor) (r : Range) :
    e.drained.screenRange r = e.screenRange r := rfl

/-- A new folding adds a marker and leaves the text as it is. -/
lemma install_frame (e : Editor) (request : FoldRequest) :
    (e.install request).2.2.text = e.text ∧
      (e.install request).2.2.markers =
        e.markers.insert e.nextId ⟨e.clipRange request.range, true⟩ := by
  obtain ⟨htext, hmarkers, -⟩ := PartialFold.foldEach_frame (PartialFold.pieces e.text
    (e.clipRange request.range) request.preview.length) (e.createMarker request.range).2
  unfold install
  dsimp only
  generalize PartialFold.foldEach (e.createMarker request.range).2 _ = folded at htext hmarkers ⊢
  exact ⟨htext, hmarkers⟩

/-- The label of the new folding is the last decoration. -/
lemma Kept.decorations_install (hk : e.Kept) (request : FoldRequest) :
    (e.install request).2.2.decorations.values =
      e.decorations.values ++ [⟨e.nextId, ⟨request.preview, LabelStyle.normal.name⟩⟩] := by
  obtain ⟨-, -, hdecorations, hnext⟩ := PartialFold.foldEach_frame (PartialFold.pieces e.text
    (e.clipRange request.range) request.preview.length) (e.createMarker request.range).2
  unfold install
  dsimp only
  generalize PartialFold.foldEach (e.createMarker request.range).2 _ = folded
    at hdecorations hnext ⊢
  have hbelow : folded.2.decorations.Below folded.2.nextId := by
    rw [hdecorations]
    exact hk.decorations.mono (Nat.le_trans (Nat.le_succ _) hnext)
  unfold Table.values
  rw [show (Label.create folded.2 e.nextId request.preview).2.decorations =
    folded.2.decorations.insert folded.2.nextId _ from rfl,
    Table.entries_insert_of_below hbelow, hdecorations, List.map_append]
  rfl

/-- The preview of the new folding is drawn after everything else. -/
lemma Tidy.drawings_install (ht : e.Tidy) (h : request.HasRoom e.text) :
    (e.install request).2.2.drawings = e.drawings ++ [request.drawing] := by
  have hmarkers := (e.install_frame request).2
  rw [clipRange_eq h.start h.stop (le_of_lt h.lt)] at hmarkers
  unfold drawings markerRange?
  rw [ht.decorations_install request, hmarkers, List.map_append]
  congr 1
  · -- no decoration that is there hangs on the new marker
    refine List.map_congr_left fun d hd => ?_
    obtain ⟨k, hk⟩ := Table.mem_values_iff.1 hd
    rw [Table.get?_insert_of_ne _ _ (Nat.ne_of_lt (ht.decorated k d hk))]
  · rw [List.map_singleton, Table.get?_insert_self]
    rfl

/-- Styling does not change what is drawn where. -/
lemma drawings_setStyle (e : Editor) (id : DecorationId) (style : String) :
    (e.setStyle id style).drawings = e.drawings := by
  unfold drawings setStyle Table.adjust Table.values
  simp only [List.map_map]
  refine List.map_congr_left fun d _ => ?_
  simp only [Function.comp_apply]
  split_ifs <;> rfl

end Editor

lemma Label.drawings_styled (l : Label) (e : Editor) (underCursor : Bool) :
    (l.styled e underCursor).2.drawings = e.drawings := by
  unfold Label.styled Label.setStyle
  split_ifs
  · dsimp only
    split
    · exact e.drawings_setStyle _ _
    · rfl
  · rfl

/-! ## Serving a batch -/

lemma Range.overlaps_comm (r s : Range) : r.overlaps s = s.overlaps r := by
  simp only [Range.overlaps, and_comm]

namespace FoldRequest

variable {t : Text} {q : FoldRequest} {requests requests' : List FoldRequest}

/-- The requests that are granted where the text is `t`. -/
def grantable (t : Text) (requests : List FoldRequest) : List FoldRequest :=
  requests.filter (·.status t = .ok)

lemma mem_grantable : q ∈ grantable t requests ↔ q ∈ requests ∧ q.status t = .ok := by
  simp [grantable]

lemma grantable_cons_of_ok (h : q.status t = .ok) :
    grantable t (q :: requests) = q :: grantable t requests :=
  List.filter_cons_of_pos (by simpa using h)

lemma grantable_cons_of_ne (h : q.status t ≠ .ok) :
    grantable t (q :: requests) = grantable t requests :=
  List.filter_cons_of_neg (by simpa using h)

/-- Requests with different numbers for ranges of the text that share at most an end. -/
structure Separate (t : Text) (requests : List FoldRequest) : Prop where
  ids : (requests.map (·.id)).Nodup
  ranges : ∀ q ∈ requests, t.Holds q.range
  apart : requests.Pairwise fun p q => p.range.overlaps q.range = false

lemma Separate.perm (h : Separate t requests) (hperm : requests'.Perm requests) :
    Separate t requests' where
  ids := (hperm.map _).nodup_iff.2 h.ids
  ranges := fun q hq => h.ranges q (hperm.mem_iff.1 hq)
  apart := (hperm.pairwise_iff fun {p q} hpq => by rwa [Range.overlaps_comm]).2 h.apart

/-- Of separate requests those that can be granted keep apart. -/
lemma Separate.keepApart (h : Separate t requests) : KeepApart t (grantable t requests) where
  room q hq := by
    obtain ⟨hmem, hok⟩ := mem_grantable.1 hq
    exact hasRoom_of_status (h.ranges q hmem) hok
  apart := by
    refine (h.apart.filter _).imp fun {p q} hpq => ?_
    rw [Range.overlaps, decide_eq_false_iff_not, not_and_or, Point.not_lt, Point.not_lt] at hpq
    exact hpq.symm

end FoldRequest

/-- The answer to a request in a batch without a limit to the length of lines. -/
def FoldRequest.answer (e : Editor) (q : FoldRequest) : FoldResult where
  id := q.id
  status := q.status e.text
  info :=
    if q.status e.text = .ok then some { highlighted := q.range.contains e.cursor } else none

namespace FoldedEditor

variable {s s' s₀ : FoldedEditor} {id : FoldingId} {f : Folding} {q request : FoldRequest}
  {granted granted' requests : List FoldRequest} {info : FoldingInfo}

/-- The folding that was made for a request. -/
structure Grants (s : FoldedEditor) (q : FoldRequest) (f : Folding) : Prop where
  at_range : s.At q.id f q.range
  shown : f.label.isHidden = false
  breadth : f.initialScreen.HasBreadth q.preview.length
  highlighted : f.info.highlighted = q.range.contains s.editor.cursor

/-- What a folding that is adopted leaves besides itself. -/
lemma adopt_rest {marker : MarkerId} {r : Range} (h : s.editor.markerRange? marker = some r)
    (request : FoldRequest) (folds : PartialFold) (label : Label) :
    (s.adopt request marker folds label).1 = { highlighted := r.contains s.editor.cursor } ∧
      (s.adopt request marker folds label).2.editor.drawings = s.editor.drawings ∧
      (s.adopt request marker folds label).2.retired = s.retired.erase request.id := by
  refine ⟨?_, label.drawings_styled _ _, rfl⟩
  unfold FoldedEditor.adopt
  rw [h, Option.any_some]

/-- In the middle of a batch into `s₀`, which has no foldings: there is a folding for each request
that was granted, and the folds and drawings are those of these requests, in their order. -/
structure Served (s₀ : FoldedEditor) (granted : List FoldRequest) (s : FoldedEditor) : Prop where
  tracked : s.Tracked []
  quiet : s.Quiet
  suspended : s.highlighter.enabled = false
  softTabs : s.editor.settings.atomicSoftTabs = false
  text : s.editor.text = s₀.editor.text
  cursor : s.editor.cursor = s₀.editor.cursor
  apart : FoldRequest.KeepApart s₀.editor.text granted
  folds : s.editor.folds.values = granted.flatMap (·.pieces s₀.editor.text)
  drawings : s.editor.drawings = s₀.editor.drawings ++ granted.map (·.drawing)
  made : ∀ q ∈ granted, ∃ f, s.Grants q f
  live : ∀ id f, s.live.get? id = some f → ∃ q ∈ granted, q.id = id
  retired : ∀ id, s.live.get? id = none → s.retired.get? id = s₀.retired.get? id

namespace Served

/-- Every folding was made for a request that was granted. -/
lemma exists_grants (h : s₀.Served granted s) (hf : s.live.get? id = some f) :
    ∃ q ∈ granted, q.id = id ∧ s.Grants q f := by
  obtain ⟨q, hq, rfl⟩ := h.live id f hf
  obtain ⟨g, hg⟩ := h.made q hq
  obtain rfl := Option.some.inj (hf.symm.trans hg.at_range.live)
  exact ⟨q, hq, rfl, hg⟩

section Install

variable (h : s₀.Served granted s)
  (hapart : FoldRequest.KeepApart s₀.editor.text (granted ++ [request]))

include h hapart

lemma hasRoom : request.HasRoom s.editor.text :=
  h.text ▸ hapart.room request (List.mem_append_right _ (List.mem_singleton_self _))

/-- With a request in place the folds are the pieces of all requests so far. -/
lemma values_install : (s.editor.install request).2.2.folds.values =
    (granted ++ [request]).flatMap (·.pieces s₀.editor.text) := by
  rw [Editor.values_install_of_room h.tracked.tidy.toKept (h.hasRoom hapart), h.folds, h.text,
    List.flatMap_append, List.flatMap_singleton]
  rfl

/-- With a further request folded, each takes as many columns as its preview has. -/
lemma hasBreadth_install (hq : q ∈ granted ++ [request]) :
    ((s.editor.install request).2.2.screenRange q.range).HasBreadth q.preview.length := by
  have htext := (s.editor.install_frame request).1.trans h.text
  exact hapart.hasBreadth htext (h.values_install hapart) hq

/-- The folds of a further request leave all foldings their shape. -/
lemma inShape_install :
    ({ s with editor := (s.editor.install request).2.2 } : FoldedEditor).InShape := by
  intro id f hf
  obtain ⟨q, hq, rfl, hg⟩ := h.exists_grants hf
  have hmarker := h.tracked.tidy.markers _ _ hg.at_range.marker
  refine ⟨q.range, ⟨hg.at_range.live, ?_⟩, ?_⟩
  · show (s.editor.install request).2.2.markers.get? f.marker = some ⟨q.range, true⟩
    rw [(s.editor.install_frame request).2, Table.get?_insert_of_ne _ _ (Nat.ne_of_lt hmarker),
      hg.at_range.marker]
  · have hbreadth := h.hasBreadth_install hapart (List.mem_append_left _ hq)
    exact (hg.breadth.isTranslationOf_iff hbreadth).2 rfl

/-- All that follows from what a further request queues is recorded. -/
lemma recorded_prepared :
    ({ s with editor := (s.editor.install request).2.2 } : FoldedEditor).emptied.Recorded
      (s.prepared request) := by
  refine (h.inShape_install hapart).recorded_process (h.tracked.install request) h.suspended
    fun id f hf => ?_
  obtain ⟨q, -, -, hg⟩ := h.exists_grants hf
  exact hg.shown

/-- Preparing a place among foldings that are not shaken does nothing but empty the queues. -/
lemma editor_prepared : (s.prepared request).editor = (s.editor.install request).2.2.drained :=
  (h.recorded_prepared hapart).editor

lemma cursor_prepared : (s.prepared request).editor.cursor = s.editor.cursor := by
  rw [h.editor_prepared hapart, Editor.cursor_drained, (s.editor.install_still request).1]

/-- A prepared place has one marker more, on the range that was asked for. -/
lemma markers_prepared : (s.prepared request).editor.markers =
    s.editor.markers.insert s.editor.nextId ⟨request.range, true⟩ := by
  have hroom := h.hasRoom hapart
  rw [h.editor_prepared hapart, Editor.markers_drained, (s.editor.install_frame request).2,
    Editor.clipRange_eq hroom.start hroom.stop (le_of_lt hroom.lt)]

end Install

/-- A request that was granted before stays so. -/
lemma grants_createFolding (h : s₀.Served granted s)
    (hapart : FoldRequest.KeepApart s₀.editor.text (granted ++ [request]))
    (hmakes : s.Makes request f s') (hid : s.live.get? request.id = none) (hq : q ∈ granted) :
    ∃ g, s'.Grants q g := by
  obtain ⟨g₀, hg₀⟩ := h.made q hq
  have hne : q.id ≠ request.id := by
    intro heq
    rw [← heq, hg₀.at_range.live] at hid
    exact absurd hid (by simp)
  -- the folding is the same up to its record
  have hlive : ((s.prepared request).live.get? q.id).map (·.unrecorded) =
      (s.live.get? q.id).map (·.unrecorded) := (h.recorded_prepared hapart).live q.id
  rw [hg₀.at_range.live] at hlive
  obtain ⟨g, hg, heq⟩ := Option.map_eq_some_iff.1 hlive
  obtain ⟨hmarker, -, hlabel, hscreen, hinfo⟩ := Folding.mk.inj heq
  have hlt := h.tracked.tidy.markers _ _ hg₀.at_range.marker
  refine ⟨g, ⟨?_, ?_⟩, ?_, ?_, ?_⟩
  · rw [hmakes.live, Table.get?_insert_of_ne _ _ hne, hg]
  · rw [hmakes.redraws.markers, h.markers_prepared hapart, hmarker,
      Table.get?_insert_of_ne _ _ (Nat.ne_of_lt hlt), hg₀.at_range.marker]
  · rw [hlabel]
    exact hg₀.shown
  · rw [hscreen]
    exact hg₀.breadth
  · rw [(FoldingInfo.mk.inj hinfo).2, hmakes.redraws.cursor, h.cursor_prepared hapart]
    exact hg₀.highlighted

/-- The folding that is made is the one for the request. -/
lemma grants_new (h : s₀.Served granted s)
    (hapart : FoldRequest.KeepApart s₀.editor.text (granted ++ [request]))
    (hmakes : s.Makes request f s') : s'.Grants request f := by
  refine ⟨⟨?_, ?_⟩, hmakes.shown, ?_, ?_⟩
  · rw [hmakes.live, Table.get?_insert_self]
  · rw [hmakes.redraws.markers]
    exact hmakes.marker
  · rw [hmakes.screen, h.editor_prepared hapart, Editor.screenRange_drained]
    exact h.hasBreadth_install hapart (List.mem_append_right _ (List.mem_singleton_self _))
  · rw [hmakes.redraws.cursor]
    exact hmakes.highlighted

/-- What a further folding leaves besides itself. -/
lemma adopted (h : s₀.Served granted s)
    (hapart : FoldRequest.KeepApart s₀.editor.text (granted ++ [request]))
    (hc : s.createFolding request = .ok (info, s')) :
    info = { highlighted := request.range.contains s₀.editor.cursor } ∧
      s'.editor.drawings = s.editor.drawings ++ [request.drawing] ∧
      s'.retired = s.retired.erase request.id := by
  have hmarker : (s.prepared request).editor.markerRange? s.editor.nextId = some request.range := by
    rw [Editor.markerRange?, h.markers_prepared hapart, Table.get?_insert_self]
    rfl
  obtain ⟨-, hadopt⟩ := createFolding_ok hc
  rw [installed_of_quiet h.quiet, process_of_quiet h.quiet] at hadopt
  obtain ⟨hinfo, hdrawings, hretired⟩ := adopt_rest hmarker request (s.editor.install request).1
    (s.editor.install request).2.1
  rw [show (s.prepared request).adopt request _ _ _ = _ from hadopt] at hinfo hdrawings hretired
  refine ⟨hinfo.trans ?_, hdrawings.trans ?_, hretired.trans ?_⟩
  · rw [h.cursor_prepared hapart, h.cursor]
  · rw [h.editor_prepared hapart, Editor.drawings_drained]
    exact h.tracked.tidy.drawings_install (h.hasRoom hapart)
  · exact congrArg (·.erase request.id) (h.recorded_prepared hapart).retired

/-- One more request is granted. -/
theorem createFolding (h : s₀.Served granted s)
    (hapart : FoldRequest.KeepApart s₀.editor.text (granted ++ [request]))
    (hid : s.live.get? request.id = none) (hc : s.createFolding request = .ok (info, s')) :
    info = { highlighted := request.range.contains s₀.editor.cursor } ∧
      s₀.Served (granted ++ [request]) s' := by
  have hroom := h.hasRoom hapart
  have hrange : s.editor.text.Holds request.range := ⟨hroom.start, hroom.stop, le_of_lt hroom.lt⟩
  obtain ⟨-, f, hmakes⟩ := h.tracked.makes_of_holds h.quiet hrange hid hc
  obtain ⟨ht', hq'⟩ := h.tracked.createFolding hid hc
  have hleaves := (createFolding_leavesHost hc (Nat.zero_le _)).1
  have hconfigured : s.Configured s.editor.settings s.highlighter.enabled := ⟨rfl, rfl⟩
  have hconfigured' := hconfigured.createFolding hc
  obtain ⟨hinfo, hdrawings, hretired⟩ := h.adopted hapart hc
  refine ⟨hinfo, ?_⟩
  constructor
  case tracked => exact ht'
  case quiet => exact hq'
  case suspended => exact hconfigured'.2.trans h.suspended
  case softTabs =>
    rw [hconfigured'.1]
    exact h.softTabs
  case text => exact hleaves.text.trans h.text
  case cursor => exact hleaves.cursor.trans h.cursor
  case apart => exact hapart
  case folds =>
    rw [hmakes.redraws.folds, h.editor_prepared hapart, Editor.folds_drained]
    exact h.values_install hapart
  case drawings => rw [hdrawings, h.drawings, List.map_append, List.append_assoc]; rfl
  case made =>
    intro q hq
    rcases List.mem_append.1 hq with hq | hq
    · exact h.grants_createFolding hapart hmakes hid hq
    · obtain rfl := List.mem_singleton.1 hq
      exact ⟨f, h.grants_new hapart hmakes⟩
  case live =>
    intro id g hg
    rcases hmakes.live_cases hg with ⟨rfl, -⟩ | ⟨-, hold⟩
    · exact ⟨request, List.mem_append_right _ (List.mem_singleton_self _), rfl⟩
    · obtain ⟨g₀, hg₀, -⟩ := live_prepared h.tracked hold
      obtain ⟨q, hq, hid⟩ := h.live id g₀ hg₀
      exact ⟨q, List.mem_append_left _ hq, hid⟩
  case retired =>
    intro id hnone
    rw [hmakes.live, Table.get?_insert] at hnone
    split_ifs at hnone with hne
    have hlive : ((s.prepared request).live.get? id).map (·.unrecorded) =
        (s.live.get? id).map (·.unrecorded) := (h.recorded_prepared hapart).live id
    rw [hnone, Option.map_none, eq_comm, Option.map_eq_none_iff] at hlive
    rw [hretired, Table.get?_erase_of_ne _ hne]
    exact h.retired id hlive

/-- The requests that are left are answered as the text decides. -/
theorem foldEach (h : s₀.Served granted s) (hids : (requests.map (·.id)).Nodup)
    (hfree : ∀ q ∈ requests, s.live.get? q.id = none)
    (hranges : ∀ q ∈ requests, s₀.editor.text.Holds q.range)
    (hapart : FoldRequest.KeepApart s₀.editor.text
      (granted ++ FoldRequest.grantable s₀.editor.text requests)) :
    ∃ t, s.foldEach none requests = .ok (requests.map (·.answer s₀.editor), t) ∧
      s₀.Served (granted ++ FoldRequest.grantable s₀.editor.text requests) t := by
  -- the requests that are left get fewer, and those that are granted more
  induction requests generalizing s granted with
  | nil => exact ⟨s, rfl, by rwa [FoldRequest.grantable, List.filter_nil, List.append_nil]⟩
  | cons q rest ih =>
    obtain ⟨hq, hids⟩ := List.nodup_cons.1 hids
    obtain ⟨hqfree, hfree⟩ := List.forall_mem_cons.1 hfree
    obtain ⟨hqrange, hranges⟩ := List.forall_mem_cons.1 hranges
    have hholds : s.editor.text.Holds q.range := h.text ▸ hqrange
    unfold FoldedEditor.foldEach
    rcases foldOne_status h.softTabs hholds hqfree with
      ⟨hok, info, s', hcreate, hone⟩ | ⟨hrefused, hone⟩
    · rw [h.text] at hok
      rw [FoldRequest.grantable_cons_of_ok hok, List.append_cons] at hapart ⊢
      obtain ⟨hinfo, hserved⟩ := h.createFolding hapart.left hqfree hcreate
      have hfree' : ∀ p ∈ rest, s'.live.get? p.id = none := by
        intro p hp
        refine live_createFolding hcreate (fun heq => hq ?_) (hfree p hp)
        exact List.mem_map.2 ⟨p, hp, heq⟩
      obtain ⟨t, heach, hlast⟩ := ih hserved hids hfree' hranges hapart
      refine ⟨t, ?_, hlast⟩
      have hanswer : q.answer s₀.editor = ⟨q.id, .ok, some info⟩ := by
        unfold FoldRequest.answer
        rw [if_pos hok, hok, hinfo]
      simp only [hone, heach, bind, Except.bind, pure, Except.pure, List.map_cons, hanswer]
    · rw [h.text] at hrefused hone
      rw [FoldRequest.grantable_cons_of_ne hrefused] at hapart ⊢
      obtain ⟨t, heach, hlast⟩ := ih h hids hfree hranges hapart
      refine ⟨t, ?_, hlast⟩
      have hanswer : q.answer s₀.editor = ⟨q.id, q.status s₀.editor.text, none⟩ := by
        unfold FoldRequest.answer
        rw [if_neg hrefused]
      simp only [hone, heach, bind, Except.bind, pure, Except.pure, List.map_cons, hanswer]

/-- The foldings have the numbers of the requests that were granted. -/
lemma mem_keys_iff (h : s₀.Served granted s) : id ∈ s.live.keys ↔ ∃ q ∈ granted, q.id = id := by
  rw [Table.mem_keys_iff]
  constructor
  · rintro ⟨f, hf⟩
    exact h.live id f hf
  · rintro ⟨q, hq, rfl⟩
    obtain ⟨f, hg⟩ := h.made q hq
    exact ⟨f, hg.at_range.live⟩

/-- What is highlighted does not depend on the order. -/
lemma highlighted_congr (h : s₀.Served granted s) (h' : s₀.Served granted' s')
    (hperm : granted'.Perm granted) (id : FoldingId) :
    (s'.info? id).map (·.highlighted) = (s.info? id).map (·.highlighted) := by
  unfold FoldedEditor.info?
  cases hf : s.live.get? id with
  | some f =>
    obtain ⟨q, hq, rfl, hg⟩ := h.exists_grants hf
    obtain ⟨f', hg'⟩ := h'.made q (hperm.mem_iff.2 hq)
    rw [hg'.at_range.live]
    simp only [Option.map_some]
    rw [hg.highlighted, hg'.highlighted, h.cursor, h'.cursor]
  | none =>
    have hf' : s'.live.get? id = none := by
      by_contra hsome
      obtain ⟨f', hf'⟩ := Option.ne_none_iff_exists'.1 hsome
      obtain ⟨q, hq, rfl⟩ := h'.live id f' hf'
      obtain ⟨f, hg⟩ := h.made q (hperm.mem_iff.1 hq)
      exact absurd (hf.symm.trans hg.at_range.live) (by simp)
    unfold Table.contains
    rw [hf', h.retired id hf, h'.retired id hf']

/-- What is displayed does not depend on the order. -/
lemma display_congr (h : s₀.Served granted s) (h' : s₀.Served granted' s')
    (hperm : granted'.Perm granted) :
    s'.editor.foldRanges = s.editor.foldRanges ∧ s'.editor.screenLines = s.editor.screenLines ∧
      s'.editor.paintedLines = s.editor.paintedLines :=
  h.tracked.tidy.toKept.paintedLines_congr (h.text ▸ h.apart) hperm (h'.text.trans h.text.symm)
    (h.text ▸ h.folds) (h.text ▸ h'.folds) h.drawings h'.drawings

/-- The numbers of the foldings are not a matter of the order. -/
lemma keys_congr (h : s₀.Served granted s) (h' : s₀.Served granted' s')
    (hperm : granted'.Perm granted) : s'.live.keys = s.live.keys := by
  refine Table.keys_congr fun id => ?_
  rw [← Table.mem_keys_iff, ← Table.mem_keys_iff, h.mem_keys_iff, h'.mem_keys_iff]
  exact exists_congr fun q => and_congr_left' hperm.mem_iff

end Served

/-- Before the first request of a batch. -/
lemma Tracked.served_batchStart (ht : s.Tracked []) (hnone : ∀ id, s.live.get? id = none)
    (hfolds : s.editor.folds.values = []) : s.Served [] s.batchStart := by
  have hemptied := emptied_process hnone
  have hleaves := s.process_leavesHost 0
  constructor
  case tracked => exact ht.process.configure _ _
  case quiet => exact quiet_process _
  case suspended => rfl
  case softTabs => rfl
  case text => exact hleaves.text
  case cursor => exact hleaves.cursor
  case apart => exact ⟨by simp, .nil⟩
  case folds => exact (congrArg (fun t => t.editor.folds.values) hemptied).trans hfolds
  case drawings =>
    rw [List.map_nil, List.append_nil]
    exact congrArg (fun t => t.editor.drawings) hemptied
  case made => simp
  case live =>
    intro id f hf
    exact absurd ((live_process (hnone id)).symm.trans hf) (by simp)
  case retired => exact fun id _ => congrArg (fun t => t.retired.get? id) hemptied

/-- A batch into an editor without folds and without foldings is served. -/
lemma Tracked.exists_served (ht : s.Tracked []) (hnone : ∀ id, s.live.get? id = none)
    (hfolds : s.editor.folds.values = []) (h : FoldRequest.Separate s.editor.text requests) :
    ∃ t, s.batchStart.foldEach none requests = .ok (requests.map (·.answer s.editor), t) ∧
      s.Served (FoldRequest.grantable s.editor.text requests) t :=
  (ht.served_batchStart hnone hfolds).foldEach h.ids (fun q _ => live_process (hnone q.id)) h.ranges
    h.keepApart

/-- What is drawn has no say in how a batch is served. -/
lemma Used.exists_served (hs : s.Used) (hnone : ∀ id, s.live.get? id = none)
    (hfolds : s.editor.folds.values = []) (h : FoldRequest.Separate s.editor.text requests) :
    ∃ t t₀, s.batchStart.foldEach none requests = .ok (requests.map (·.answer s.editor), t) ∧
      t.Redrawn .included t₀ ∧ s.undrawn.Served (FoldRequest.grantable s.editor.text requests) t₀ := by
  obtain ⟨t₀, heach₀, hserved⟩ := (hs.tracked_undrawn hnone).exists_served hnone hfolds h
  obtain ⟨fault, -, hfault⟩ | ⟨x, y, heach, heach', hxy⟩ :=
    (s.redrawn_undrawn.batchStart.foldEach none requests).error_or_ok
  · exact absurd (heach₀.symm.trans hfault) (by simp)
  · obtain rfl := Except.ok.inj (heach₀.symm.trans heach')
    obtain ⟨results, t⟩ := x
    obtain rfl : requests.map (·.answer s.undrawn.editor) = results := hxy.1
    exact ⟨t, t₀, heach, hxy.2, hserved⟩

/-- **Any order.** Requests with different numbers for ranges that share at most an end are put to
an editor without folds and without foldings. Each request gets the same answer in every order, and
in the end the same foldings are there, the same is highlighted and the same text is shown. If all
decorations hang on numbers that have been handed out, the same is displayed with them. -/
theorem Used.foldAll_perm {requests' : List FoldRequest} (hs : s.Used) (hnone : s.live.keys = [])
    (hfolds : s.editor.foldRanges = []) (hwrap : s.editor.settings.softWrap = false)
    (hrequests : FoldRequest.Separate s.editor.text requests) (hperm : requests'.Perm requests) :
    ∃ t t', s.foldAll requests = .ok (requests.map (·.answer s.editor), t) ∧
      s.foldAll requests' = .ok (requests'.map (·.answer s.editor), t') ∧
      (∀ id, id ∈ t.live.keys ↔ ∃ q ∈ requests, q.id = id ∧ q.status s.editor.text = .ok) ∧
      t'.live.keys = t.live.keys ∧
      (∀ id, (t'.info? id).map (·.highlighted) = (t.info? id).map (·.highlighted)) ∧
      t'.editor.foldRanges = t.editor.foldRanges ∧
      t'.editor.screenLines = t.editor.screenLines ∧
      ((∀ d ∈ s.editor.decorations.values, d.marker < s.editor.nextId) →
        t'.editor.paintedLines = t.editor.paintedLines) := by
  have hlive : ∀ id, s.live.get? id = none := by
    intro id
    by_contra hsome
    obtain ⟨f, hf⟩ := Option.ne_none_iff_exists'.1 hsome
    have hmem : id ∈ s.live.keys := Table.mem_keys_iff.2 ⟨f, hf⟩
    rw [hnone] at hmem
    exact absurd hmem (by simp)
  have hvalues : s.editor.folds.values = [] := by
    have hsorted := Range.sort_perm s.editor.folds.values
    rw [show Range.sort s.editor.folds.values = [] from hfolds] at hsorted
    exact hsorted.nil_eq.symm
  have hgranted : (FoldRequest.grantable s.editor.text requests').Perm
      (FoldRequest.grantable s.editor.text requests) := hperm.filter _
  obtain ⟨t, t₀, heach, hredrawn, hserved⟩ := hs.exists_served hlive hvalues hrequests
  obtain ⟨t', t₀', heach', hredrawn', hserved'⟩ :=
    hs.exists_served hlive hvalues (hrequests.perm hperm)
  obtain ⟨hfolded, hlines, -⟩ := hserved.display_congr hserved' hgranted
  rw [hredrawn.screen.1, hredrawn'.screen.1] at hfolded
  rw [hredrawn.screen.2, hredrawn'.screen.2] at hlines
  refine ⟨s.batchEnd t, s.batchEnd t', foldAll_of_foldEach hwrap heach,
    foldAll_of_foldEach hwrap heach', fun id => ?_, ?_, fun id => ?_, hfolded, hlines, fun hd => ?_⟩
  · show id ∈ t.live.keys ↔ _
    rw [← hredrawn.live, hserved.mem_keys_iff]
    refine exists_congr fun q => ?_
    rw [FoldRequest.mem_grantable, and_assoc, and_comm (a := q.id = id)]
  · show t'.live.keys = t.live.keys
    rw [← hredrawn.live, ← hredrawn'.live]
    exact hserved.keys_congr hserved' hgranted
  · show (t'.info? id).map _ = (t.info? id).map _
    rw [← hredrawn.info?, ← hredrawn'.info?]
    exact hserved.highlighted_congr hserved' hgranted id
  · -- with the decorations in their places the batch can be followed as it is
    have ht := hs.tracked_of_none hlive fun d x hx => hd x (Table.mem_values_iff.2 ⟨d, hx⟩)
    obtain ⟨u, hu, hdrawn⟩ := ht.exists_served hlive hvalues hrequests
    obtain ⟨u', hu', hdrawn'⟩ := ht.exists_served hlive hvalues (hrequests.perm hperm)
    obtain rfl := (Prod.mk.inj (Except.ok.inj (hu.symm.trans heach))).2
    obtain rfl := (Prod.mk.inj (Except.ok.inj (hu'.symm.trans heach'))).2
    exact (hdrawn.display_congr hdrawn' hgranted).2.2

/-- A declaration over a line ending between two others that touch it, asked for in two orders where
it has been folded before. One of the others has a tab, a fourth request has no preview, and a
decoration of the host reaches over the previews. -/
theorem Used.foldAll_perm_touching :
    let first : FoldRequest := ⟨4, ⟨⟨0, 3⟩, ⟨1, 2⟩⟩, "<T>".toList⟩
    let requests := [first, ⟨2, ⟨⟨0, 0⟩, ⟨0, 3⟩⟩, "xy".toList⟩, ⟨3, ⟨⟨1, 2⟩, ⟨1, 4⟩⟩, ['z']⟩,
      ⟨1, ⟨⟨1, 5⟩, ⟨1, 8⟩⟩, []⟩]
    let opened : FoldedEditor := { editor := { text := "ab cd\r\nef\tgh ij".toList } }
    let decorated := (opened.host fun e => EditorCall.run e (.createMarker ⟨⟨0, 1⟩, ⟨0, 2⟩⟩)).host
      fun e => EditorCall.run e (.decorate 1 ⟨"hello".toList, "c"⟩)
    let s := ((decorated.host fun e => EditorCall.run e (.setCursor ⟨0, 4⟩)).afterBatch
      [first]).unfoldAll
    s.Used ∧ s.live.keys = [] ∧ s.editor.foldRanges = [] ∧
      FoldRequest.Separate s.editor.text requests ∧
      requests.map (·.status s.editor.text) = [.ok, .ok, .textHasTabs, .error] ∧
      (s.afterBatch requests).editor.paintedLines ≠ s.editor.paintedLines ∧
      ∃ t t', s.foldAll requests = .ok (requests.map (·.answer s.editor), t) ∧
        s.foldAll requests.reverse = .ok (requests.reverse.map (·.answer s.editor), t') ∧
        t'.live.keys = t.live.keys ∧ t'.editor.paintedLines = t.editor.paintedLines := by
  intro first requests opened decorated s
  have hs : s.Used :=
    .manage (.manage (.host _ (.host _ (.host _ (.start _ _)))) (.foldAll [first])) .unfoldAll
  have hnone : s.live.keys = [] := by decide +kernel
  have hfolds : s.editor.foldRanges = [] := by decide +kernel
  have hrequests : FoldRequest.Separate s.editor.text requests := by
    have hends : ∀ q ∈ requests, s.editor.text.Addressable q.range.start ∧
        s.editor.text.Addressable q.range.stop ∧ q.range.start ≤ q.range.stop := by decide +kernel
    exact ⟨by decide, fun q hq => ⟨(hends q hq).1, (hends q hq).2.1, (hends q hq).2.2⟩, by decide⟩
  obtain ⟨t, t', hall, hall', -, hkeys, -, -, -, hpainted⟩ :=
    hs.foldAll_perm hnone hfolds (by decide +kernel) hrequests requests.reverse_perm
  exact ⟨hs, hnone, hfolds, hrequests, by decide +kernel, by decide +kernel, t, t', hall, hall',
    hkeys, hpainted (by decide +kernel)⟩

/-- A decoration that hangs on a number of the future: which folding it is drawn with is a matter of
which one is made first. -/
theorem foldAll_order_seen_through_early_decoration :
    let s := ({ editor := { text := "aaaa bbbb".toList } } : FoldedEditor).host fun e =>
      EditorCall.run e (.decorate 2 ⟨"hello".toList, "c"⟩)
    let first : FoldRequest := ⟨1, ⟨⟨0, 0⟩, ⟨0, 4⟩⟩, ['x']⟩
    let second : FoldRequest := ⟨2, ⟨⟨0, 5⟩, ⟨0, 9⟩⟩, ['y']⟩
    s.Used ∧ s.live.keys = [] ∧ s.editor.foldRanges = [] ∧ s.editor.settings.softWrap = false ∧
      FoldRequest.Separate s.editor.text [first, second] ∧
      (s.afterBatch [first, second]).editor.paintedLines = ["xeylo".toList] ∧
      (s.afterBatch [second, first]).editor.paintedLines = ["x yello".toList] := by
  intro s first second
  have hends : ∀ q ∈ [first, second], s.editor.text.Addressable q.range.start ∧
      s.editor.text.Addressable q.range.stop ∧ q.range.start ≤ q.range.stop := by decide
  exact ⟨.host _ (.start _ _), by decide, by decide, by decide,
    ⟨by decide, fun q hq => ⟨(hends q hq).1, (hends q hq).2.1, (hends q hq).2.2⟩, by decide⟩,
    by decide +kernel, by decide +kernel⟩

end FoldedEditor

end TemplateFolding
