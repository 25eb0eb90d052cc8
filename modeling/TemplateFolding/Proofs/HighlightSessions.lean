import TemplateFolding.Proofs.FreshFoldings

/-!
# Highlighting in every session

A session starts from an editor as a host may leave it. Then declarations are folded and unfolded,
previews are clicked, and the host changes the text, the cursor or the folds, one call at a time.

Highlighting is safe: what is highlighted is drawn so, stands in the index and has the cursor
inside. It is not complete. An operation that leaves the old position of the cursor in the new range
of a folding does not see the cursor enter, so a folding that comes under the cursor because text in
front of it goes, or that is revealed under the cursor, is overlooked, and a click on it changes
nothing. This is the only way in which highlighting is missed.

The host may have hung decorations on numbers that become the markers of foldings. A session is
therefore followed beside one in which the host has drawn nothing: what is drawn there is drawn in
the session too, and in all else the two are the same.
-/

namespace TemplateFolding

open Text Point

namespace AutoFolder

variable {e : Editor} {a a' b b' : AutoFolder} {id : FoldingId} {f : Folding} {r : Range}
  {call : EditorCall} {R : DrawnAlike}

/-! ## Sessions -/

/-- What can happen in a session. An edit makes one call that changes the text, the cursor or the
folds. -/
inductive Operates (a : AutoFolder) : AutoFolder → Prop where
  | foldAll : Operates a a.foldAll.2
  | unfoldAll : Operates a a.unfoldAll
  | click (id : FoldingId) : Operates a (a.click id).2
  | edit {α : Type} (change : Editor → α × Editor) (call : EditorCall) :
      call.Mutates → (change a.folded.editor).2 = call.run a.folded.editor →
        Operates a (a.edit change).2

/-- The folders that a session comes to which starts from an editor. -/
inductive Session (e : Editor) : AutoFolder → Prop where
  | start : e.Reachable → Session e (ofEditor e)
  | next {a b : AutoFolder} : Session e a → Operates a b → Session e b

lemma Session.opened (t : Text) : Session { text := t } (ofEditor { text := t }) :=
  .start ⟨t, {}, [], rfl⟩

/-- Between `a` and `b` the folding was there and not highlighted, and the range it has in `b` holds
the position that the cursor had in `a`. -/
def Overlooks (a b : AutoFolder) (id : FoldingId) : Prop :=
  ∃ f r, a.folded.live.get? id = some f ∧ f.info.highlighted = false ∧
    b.folded.rangeOf? id = some r ∧ r.contains a.folded.editor.cursor = true

/-! ## What every operation keeps -/

/-- Highlighting is in order, nothing is queued that concerns a folding, and numbers that have not
been given are free. -/
structure Attended (a : AutoFolder) : Prop where
  watched : a.folded.Watched
  quiet : ∀ id f, a.folded.live.get? id = some f → a.folded.Quiet
  numbered : ∀ id f, a.folded.live.get? id = some f → id < a.nextId

/-- The highlighting in `b` of a folding that is shown, as it follows from `a`. -/
def Updates (a b : AutoFolder) : Prop :=
  ∀ id f r, b.folded.At id f r → f.label.isHidden = false →
    (f.info.highlighted = true ↔
      r.contains b.folded.editor.cursor = true ∧ ¬a.Overlooks b id)

/-- Without foldings there is nothing to attend to. -/
lemma attended_of_none (ht : a.folded.Tracked []) (hon : a.folded.highlighter.enabled = true)
    (hnone : ∀ id f, a.folded.live.get? id ≠ some f) : a.Attended where
  watched := ⟨ht, .of_none hnone, hon, fun id f hf => absurd hf (hnone id f),
    fun id f _ ha => absurd ha.live (hnone id f)⟩
  quiet := fun id f hf => absurd hf (hnone id f)
  numbered := fun id f hf => absurd hf (hnone id f)

/-- Whether a folding is overlooked can be read off its range and what it was before. -/
lemma overlooks_iff (ha : b.folded.At id f r) {f₀ : Folding}
    (hf₀ : a.folded.live.get? id = some f₀) : a.Overlooks b id ↔
      f₀.info.highlighted = false ∧ r.contains a.folded.editor.cursor = true := by
  constructor
  · rintro ⟨g, r', hg, hhl, hr', hold⟩
    obtain rfl := Option.some.inj (hf₀.symm.trans hg)
    obtain rfl := Option.some.inj (ha.rangeOf?.symm.trans hr')
    exact ⟨hhl, hold⟩
  · rintro ⟨hhl, hold⟩
    exact ⟨f₀, r, hf₀, hhl, ha.rangeOf?, hold⟩

lemma edit_eq {α : Type} {change : Editor → α × Editor}
    (hchange : (change a.folded.editor).2 = call.run a.folded.editor) :
    (a.edit change).2 = { a with folded := (a.folded.host fun e => call.run e).process } := by
  show ({ a with folded := ({ a.folded with editor := (change a.folded.editor).2 } :
    FoldedEditor).process } : AutoFolder) = _
  rw [hchange]
  rfl

lemma click_eq (hr : a.folded.rangeOf? id = some r) :
    (a.click id).2 = { a with
      folded := (a.folded.host fun e => EditorCall.run e (.setCursor r.start)).process } := by
  unfold AutoFolder.click
  rw [hr]
  rfl

/-- A call of the host leaves the folder attended, and updates what is highlighted. -/
lemma Attended.host (h : a.Attended) (hc : call.Mutates) :
    let b : AutoFolder := { a with folded := (a.folded.host fun e => call.run e).process }
    b.Attended ∧ a.Updates b := by
  intro b
  have ht := h.watched.tracked.host call (hc.permits a.folded)
  have hconfigured : (a.folded.host fun e => call.run e).Configured
      (call.run a.folded.editor).settings true := ⟨rfl, h.watched.enabled⟩
  have hremains := ht.remains_process
  by_cases hnone : ∀ id f, a.folded.live.get? id ≠ some f
  · -- no folding, and none appears
    have hnone' : ∀ id f, b.folded.live.get? id ≠ some f := by
      intro id f hf
      obtain ⟨g, hg, -⟩ := hremains.live id f hf
      exact hnone id g hg
    exact ⟨attended_of_none ht.process hconfigured.process.2 hnone',
      fun id f _ ha => absurd ha.live (hnone' id f)⟩
  · push Not at hnone
    obtain ⟨id₀, f₀, hf₀⟩ := hnone
    have hq := h.quiet id₀ f₀ hf₀
    refine ⟨⟨h.watched.host hq hc, fun _ _ _ => FoldedEditor.quiet_process _, ?_⟩, ?_⟩
    · intro id f hf
      obtain ⟨g, hg, -⟩ := hremains.live id f hf
      exact h.numbered id g hg
    · intro id f r ha hshown
      obtain ⟨g, hg, -, hlaw⟩ := h.watched.highlighted_iff hq hc ha
      rw [overlooks_iff ha hg, hlaw, hshown, show b.folded.editor.cursor = _ from hremains.cursor]
      cases g.info.highlighted <;> cases r.contains a.folded.editor.cursor <;> simp <;> rfl

lemma Attended.unfoldAll (h : a.Attended) : a.unfoldAll.Attended ∧ a.Updates a.unfoldAll := by
  have ht := h.watched.tracked
  have hconfigured : a.folded.Configured a.folded.editor.settings true := ⟨rfl, h.watched.enabled⟩
  have hnone : ∀ id f, a.unfoldAll.folded.live.get? id ≠ some f := by
    intro id f hf
    rw [show a.unfoldAll.folded.live.get? id = none from a.folded.live_unfoldAll id] at hf
    exact absurd hf (by simp)
  exact ⟨attended_of_none ht.unfoldAll.1 hconfigured.unfoldAll.2 hnone,
    fun id f _ ha => absurd ha.live (hnone id f)⟩

lemma lt_of_mem_requestsFor {os : List Occurrence} {q : FoldRequest} (h : q ∈ requestsFor id os) :
    q.id < id + (requestsFor id os).length := by
  fun_induction requestsFor id os with
  | case1 => simp at h
  | case2 id o os preview hpreview ih =>
    rw [List.length_cons]
    rcases List.mem_cons.1 h with rfl | h
    · exact Nat.lt_add_of_pos_right (Nat.succ_pos _)
    · simpa only [Nat.add_assoc, Nat.add_comm 1] using ih h
  | case3 id o os refusal hpreview ih => exact ih h

/-- Folding the whole buffer leaves the folder attended: each folding is new, and highlighted if the
cursor is inside. -/
lemma Attended.foldAll (h : a.Attended) : a.foldAll.2.Attended ∧ a.Updates a.foldAll.2 := by
  obtain ⟨hunfolded, -⟩ := h.unfoldAll
  have ht : a.folded.unfoldAll.Tracked [] := hunfolded.watched.tracked
  have hnone : ∀ id f, a.folded.unfoldAll.live.get? id ≠ some f := by
    intro id f hf
    rw [a.folded.live_unfoldAll id] at hf
    exact absurd hf (by simp)
  unfold AutoFolder.foldAll
  dsimp only
  split
  · -- the batch is refused, and nothing is folded
    exact ⟨attended_of_none ht hunfolded.watched.enabled hnone,
      fun id f _ ha => absurd ha.live (hnone id f)⟩
  · rename_i results s' hbatch
    obtain ⟨hready, hascending⟩ := requestsFor_all a.nextId a.folded.unfoldAll.editor.text
    obtain ⟨hwatched, hfresh⟩ := ht.foldAll_fresh hnone hunfolded.watched.enabled
      (fun q hq => ⟨hready q hq, Occurrence.standsAt (mem_requestsFor hq).2.1⟩) hascending hbatch
    obtain ⟨ht', hq'⟩ := ht.foldAll hbatch
    refine ⟨⟨hwatched, fun _ _ _ => hq', ?_⟩, ?_⟩
    · intro id f hf
      obtain ⟨r, ha⟩ := ht'.exists_at hq' hf
      obtain ⟨⟨q, hq, rfl, -⟩, -⟩ := hfresh id f r ha
      exact lt_of_mem_requestsFor hq
    · intro id f r ha _
      obtain ⟨⟨q, hq, rfl, -⟩, -, hhl⟩ := hfresh id f r ha
      -- the number was not in use before
      have hnew : ∀ b, ¬a.Overlooks b q.id := by
        rintro b ⟨g, -, hg, -⟩
        exact absurd (h.numbered q.id g hg) (Nat.not_lt.2 (mem_requestsFor hq).1)
      rw [hhl]
      exact (and_iff_left (hnew _)).symm

/-- Every operation leaves the folder attended, and updates what is highlighted. -/
lemma Attended.operates (h : a.Attended) (hop : a.Operates b) : b.Attended ∧ a.Updates b := by
  cases hop with
  | foldAll => exact h.foldAll
  | unfoldAll => exact h.unfoldAll
  | click id =>
    cases hr : a.folded.rangeOf? id with
    | none =>
      -- there is no such folding, and nothing happens
      have hclick : (a.click id).2 = a := by rw [AutoFolder.click, hr]
      rw [hclick]
      refine ⟨h, fun id f r ha _ => ?_⟩
      have hinside := h.watched.inside id f r ha
      rw [overlooks_iff ha ha.live]
      cases hhl : f.info.highlighted with
      | true => simp [hinside hhl]
      | false => simp
    | some r =>
      rw [click_eq hr]
      exact h.host (show (EditorCall.setCursor r.start).Mutates from trivial)
  | edit change call hc hchange =>
    rw [edit_eq hchange]
    exact h.host hc

lemma attended_ofEditor (h : e.Tidy) : (ofEditor e).Attended :=
  attended_of_none (FoldedEditor.tracked_alone h) rfl fun id f hf =>
    absurd hf (by simp [ofEditor])

/-- A session is in order as it is if no decoration hangs on a number of the future. -/
theorem Session.attended (h : Session e a)
    (hd : ∀ d x, e.decorations.get? d = some x → x.marker < e.nextId) : a.Attended := by
  induction h with
  | start he => exact attended_ofEditor ⟨he.kept, hd⟩
  | next _ hop ih => exact (ih.operates hop).1

/-! ## Sessions in which less is drawn -/

/-- A click does the same, whatever is drawn. -/
lemma Redrawn.click (h : a.Redrawn R b) (id : FoldingId) :
    (a.click id).2.Redrawn R (b.click id).2 := by
  have hrange := h.folded.rangeOf? id
  cases hr : a.folded.rangeOf? id with
  | none =>
    unfold AutoFolder.click
    rw [hrange, hr]
    exact h
  | some r =>
    rw [click_eq hr, click_eq (hrange.trans hr)]
    exact ⟨(h.folded.host _).process, h.nextId⟩

/-- What can happen to a folder can happen to one in which other things are drawn. -/
lemma Redrawn.operates (h : a.Redrawn R b) (hop : a.Operates a') :
    ∃ b', b.Operates b' ∧ a'.Redrawn R b' := by
  cases hop with
  | foldAll => exact ⟨_, .foldAll, h.foldAll.2⟩
  | unfoldAll => exact ⟨_, .unfoldAll, h.unfoldAll⟩
  | click id => exact ⟨_, .click id, h.click id⟩
  | edit change call hc hchange =>
    refine ⟨_, .edit (fun e => ((), call.run e)) call hc rfl, ?_⟩
    rw [edit_eq hchange, edit_eq rfl]
    exact ⟨(h.folded.host call).process, h.nextId⟩

/-- What is overlooked does not depend on what is drawn. -/
lemma Redrawn.overlooks_iff (h : a.Redrawn R b) (h' : a'.Redrawn R b') :
    b.Overlooks b' id ↔ a.Overlooks a' id := by
  unfold Overlooks
  rw [h.folded.live, h'.folded.rangeOf? id, h.folded.1.cursor]

/-- Beside every session there is one that starts with nothing drawn, and it is in order. -/
theorem Session.exists_attended (h : Session e a) : ∃ b, a.Redrawn .included b ∧ b.Attended := by
  induction h with
  | start he =>
    exact ⟨ofEditor e.undrawn, ⟨FoldedEditor.redrawn_undrawn { editor := e }, rfl⟩,
      attended_ofEditor (Editor.tidy_undrawn he.kept)⟩
  | next _ hop ih =>
    obtain ⟨b, hr, hattended⟩ := ih
    obtain ⟨b', hop', hr'⟩ := hr.operates hop
    exact ⟨b', hr', (hattended.operates hop').1⟩

end AutoFolder

/-! ## Safety -/

/-- An overlay is shown for each decoration whose marker exists. -/
lemma Editor.mem_overlays_iff {e : Editor} {v : OverlayView} : v ∈ e.overlays ↔
    ∃ d x m, e.decorations.get? d = some x ∧ e.markers.get? x.marker = some m ∧
      v = ⟨x.marker, x.overlay, m.range, e.screenPoint m.range.start⟩ := by
  constructor
  · intro h
    obtain ⟨x, hx, hv⟩ := List.mem_filterMap.1 h
    obtain ⟨d, hd⟩ := Table.mem_values_iff.1 hx
    obtain ⟨m, hm, rfl⟩ := Option.map_eq_some_iff.1 hv
    exact ⟨d, x, m, hd, hm, rfl⟩
  · rintro ⟨d, x, m, hd, hm, rfl⟩
    refine List.mem_filterMap.2 ⟨x, Table.mem_values_iff.2 ⟨d, hd⟩, ?_⟩
    rw [overlayOf?, hm]
    rfl

namespace FoldedEditor

variable {s t : FoldedEditor} {id : FoldingId} {f : Folding} {r : Range} {v : OverlayView}

/-- The overlay that a folding shows: the one of the decoration which its label has. -/
def shownOverlay? (s : FoldedEditor) (f : Folding) : Option OverlayView :=
  (f.label.decoration.bind fun d => s.editor.decorations.get? d).bind s.editor.overlayOf?

/-- What a folding shows is an overlay of the editor. -/
lemma mem_overlays_of_shownOverlay? (h : s.shownOverlay? f = some v) : v ∈ s.editor.overlays := by
  obtain ⟨x, hx, hv⟩ := Option.bind_eq_some_iff.1 h
  obtain ⟨d, -, hd⟩ := Option.bind_eq_some_iff.1 hx
  exact List.mem_filterMap.2 ⟨x, Table.mem_values_iff.2 ⟨d, hd⟩, hv⟩

/-- A folding whose label is not hidden shows it, whatever else the host has drawn. -/
lemma Tracked.shownOverlay? (h : t.Tracked []) (hr : s.Redrawn .included t) (ha : t.At id f r)
    (hshown : f.label.isHidden = false) :
    s.shownOverlay? f = some ⟨f.marker, f.label.overlay, r, s.editor.screenPoint r.start⟩ := by
  obtain ⟨known, hfol⟩ := h.follows id f ha.live
  obtain ⟨d, hd⟩ : ∃ d, f.label.decoration = some d := by
    rw [← Option.isSome_iff_exists]
    simpa [Label.isHidden] using hshown
  have hdrawn : s.editor.decorations.get? d = some ⟨f.label.marker, f.label.overlay⟩ := by
    obtain ⟨⟨decorations, hincluded, heditor⟩, -⟩ := hr
    refine hincluded d _ ?_
    rw [← hfol.drawn.get? hd, heditor]
  have hmarker : s.editor.markers.get? f.label.marker = some ⟨r, true⟩ := by
    rw [hfol.label, ← hr.1.markers]
    exact ha.marker
  unfold FoldedEditor.shownOverlay?
  rw [hd, Option.bind_some, hdrawn, Option.bind_some, Editor.overlayOf?, hmarker, hfol.label]
  rfl

/-- Nothing is drawn at the marker of a folding but its label, and that only if it is shown. -/
lemma Tracked.overlay_iff (h : s.Tracked []) (ha : s.At id f r) :
    v ∈ s.editor.overlays ∧ v.marker = f.marker ↔ f.label.isHidden = false ∧
      v = ⟨f.marker, f.label.overlay, r, s.editor.screenPoint r.start⟩ := by
  obtain ⟨known, hfol⟩ := h.follows id f ha.live
  constructor
  · rintro ⟨hv, hmarker⟩
    obtain ⟨d, x, m, hd, hm, rfl⟩ := Editor.mem_overlays_iff.1 hv
    have hxm : x.marker = f.marker := hmarker
    obtain ⟨hdrawn, hx⟩ := (hfol.drawn d x).1 ⟨hd, hxm.trans hfol.label.symm⟩
    rw [hxm, ha.marker] at hm
    obtain rfl := Option.some.inj hm
    refine ⟨by simp [Label.isHidden, hdrawn], ?_⟩
    rw [hxm, hx]
  · rintro ⟨hshown, rfl⟩
    exact ⟨mem_overlays_of_shownOverlay? (h.shownOverlay? (.self s) ha hshown), rfl⟩

end FoldedEditor

namespace AutoFolder

variable {e : Editor} {a b : AutoFolder} {id : FoldingId} {f : Folding} {r : Range}

/-- What is highlighted is visible, stands in the index, and has the cursor inside. -/
lemma Attended.highlighted (h : a.Attended) (ha : a.folded.At id f r)
    (hhl : f.info.highlighted = true) :
    f.label.isHidden = false ∧
      id ∈ a.folded.highlighter.index.onRow (a.folded.editor.screenPoint r.start).row ∧
      r.contains a.folded.editor.cursor = true := by
  have ht := h.watched.tracked
  rcases ht.looks_of_quiet (h.quiet id f ha.live) ha with hlook | ⟨-, hlook⟩
  · exact ⟨hlook.2.1, (ht.index _ _).2 hlook.2.2, h.watched.inside id f r ha hhl⟩
  · rw [hlook.2.2.2] at hhl
    exact absurd hhl (by simp)

/-- The overlay of a folding has the style that its highlighting asks for. -/
lemma Attended.style_eq (h : a.Attended) (hf : a.folded.live.get? id = some f) :
    f.label.overlay.style =
      if f.info.highlighted then "folding-preview-under-cursor" else "folding-preview" := by
  show f.label.style.name = _
  rw [h.watched.styled id f hf]
  cases f.info.highlighted <;> rfl

/-- **Safety.** In every session a folding that is highlighted shows its label in the style for it,
stands in the index on the row where it starts, and has the cursor in its range; and another one
that is not hidden shows its label in the other style. If the host had drawn nothing at numbers of
the future, nothing else is drawn at the marker of a folding. -/
theorem Session.highlighted_safe (h : Session e a) (hf : a.folded.live.get? id = some f) :
    ∃ r, a.folded.rangeOf? id = some r ∧
      (f.info.highlighted = true →
        (∃ v ∈ a.folded.editor.overlays, a.folded.shownOverlay? f = some v ∧ v.marker = f.marker ∧
          v.overlay.style = "folding-preview-under-cursor") ∧
        id ∈ a.folded.highlighter.index.onRow (a.folded.editor.screenPoint r.start).row ∧
        r.contains a.folded.editor.cursor = true) ∧
      (f.info.highlighted = false → f.label.isHidden = false →
        ∃ v ∈ a.folded.editor.overlays, a.folded.shownOverlay? f = some v ∧ v.marker = f.marker ∧
          v.overlay.style = "folding-preview") ∧
      ((∀ d x, e.decorations.get? d = some x → x.marker < e.nextId) →
        ∀ v ∈ a.folded.editor.overlays, v.marker = f.marker →
          a.folded.shownOverlay? f = some v) := by
  obtain ⟨b, hr, hattended⟩ := h.exists_attended
  have hf' : b.folded.live.get? id = some f := by rw [hr.folded.live, hf]
  have ht := hattended.watched.tracked
  obtain ⟨r, ha⟩ := ht.exists_at (hattended.quiet id f hf') hf'
  -- what is not hidden is shown in the style of the label
  have hshows : f.label.isHidden = false → ∃ v ∈ a.folded.editor.overlays,
      a.folded.shownOverlay? f = some v ∧ v.marker = f.marker ∧ v.overlay.style =
        if f.info.highlighted then "folding-preview-under-cursor" else "folding-preview" := by
    intro hshown
    have hown := ht.shownOverlay? hr.folded ha hshown
    exact ⟨_, FoldedEditor.mem_overlays_of_shownOverlay? hown, hown, rfl, hattended.style_eq hf'⟩
  refine ⟨r, by rw [← hr.folded.rangeOf?, ha.rangeOf?], fun hhl => ?_, fun hhl hshown => ?_,
    fun hd v hv hmarker => ?_⟩
  · obtain ⟨hshown, hindex, hinside⟩ := hattended.highlighted ha hhl
    rw [hr.folded.highlighter, hr.folded.1.screenPoint] at hindex
    rw [hr.folded.1.cursor] at hinside
    rw [hhl] at hshows
    exact ⟨hshows hshown, hindex, hinside⟩
  · rw [hhl] at hshows
    exact hshows hshown
  · -- without such drawings the session is in order itself
    have htracked := (h.attended hd).watched.tracked
    have ha' : a.folded.At id f r := ⟨hf, by rw [← hr.folded.1.markers]; exact ha.marker⟩
    obtain ⟨hshown, rfl⟩ := (htracked.overlay_iff ha').1 ⟨hv, hmarker⟩
    exact htracked.shownOverlay? (.self _) ha' hshown

/-- Two foldings and a host fold, with the cursor in one after the other. -/
theorem highlighted_safe_moved :
    let e : Editor := { text := "template<class T> x\ntemplate<class U> y".toList }
    let a := (ofEditor e).foldAll.2
    let b := (a.edit fun e => ((), e.setCursor ⟨1, 3⟩)).2
    let c := (b.edit fun e => e.fold ⟨⟨0, 0⟩, ⟨0, 19⟩⟩).2
    Session e c ∧ (a.folded.live.get? 1).any (·.info.highlighted) = true ∧
      ∃ f, c.folded.live.get? 2 = some f ∧ f.info.highlighted = true ∧
        (∃ v ∈ c.folded.editor.overlays, c.folded.shownOverlay? f = some v ∧
          v.marker = f.marker ∧ v.overlay.style = "folding-preview-under-cursor") ∧
        c.folded.editor.overlays.length = 1 := by
  intro e a b c
  have hsession : Session e c := .next (.next (.next (.opened _) .foldAll)
    (.edit _ (.setCursor ⟨1, 3⟩) trivial rfl)) (.edit _ (.fold ⟨⟨0, 0⟩, ⟨0, 19⟩⟩) trivial rfl)
  have hlive : (c.folded.live.get? 2).any (·.info.highlighted) = true := by decide +kernel
  obtain ⟨f, hf, hhl⟩ := (Option.any_eq_true _ _).1 hlive
  obtain ⟨r, -, hsafe, -⟩ := hsession.highlighted_safe hf
  exact ⟨hsession, by decide +kernel, f, hf, hhl, (hsafe hhl).1, by decide +kernel⟩

end AutoFolder

/-! ## Clicks -/

/-- Where markers and screen are the same no marker is notified. -/
lemma Editor.changesSince_eq_nil {before after : Editor}
    (hmarkers : after.markers = before.markers)
    (hscreen : ∀ r, after.screenRange r = before.screenRange r) :
    changesSince before after = [] := by
  refine List.filterMap_eq_nil_iff.2 fun ⟨k, m⟩ hmem => ?_
  have hm : after.markers.get? k = some m := by
    rw [hmarkers]
    exact Table.mem_entries_iff.1 hmem
  dsimp only
  split
  · rename_i hv
    unfold changeOf?
    rw [hm]
    exact if_pos ⟨hv, rfl, hscreen m.range⟩
  · rfl

lemma Editor.markerChanges_setCursor (e : Editor) (p : Point) :
    (e.setCursor p).markerChanges = e.markerChanges := by
  have hnone : changesSince e { e with cursor := e.text.clip p } = [] :=
    changesSince_eq_nil rfl fun _ => rfl
  show (changesSince e { e with cursor := e.text.clip p }).foldl _ e.markerChanges = _
  rw [hnone]
  rfl

namespace FoldedEditor

variable {s : FoldedEditor} {id : FoldingId} {f : Folding} {r : Range}

lemma quiet_setHighlight (h : s.Quiet) (id : FoldingId) (on : Bool) :
    (s.setHighlight id on).Quiet := by
  refine setHighlight_elim s id on (fun _ => h) fun f _ _ => ?_
  obtain ⟨d, n, -, heditor⟩ :=
    f.label.onlyDraws_setStyle s.editor (if on then .underCursor else .normal)
  unfold restyled Quiet
  rw [heditor]
  exact h

lemma quiet_onCursorMove (h : s.Quiet) (m : CursorMove) : (s.onCursorMove m).Quiet := by
  refine List.foldlRecOn (motive := Quiet) _ _ h fun t ht c _ => ?_
  cases c with
  | add id => exact quiet_setHighlight ht id true
  | remove id => exact quiet_setHighlight ht id false

/-- A call to move the cursor takes no folding down, and it does to each what the move asks for. -/
lemma Tracked.get?_live_setCursor (h : s.Tracked []) (hon : s.highlighter.enabled = true)
    (hq : s.Quiet) (p : Point) (id : FoldingId) :
    (s.host fun e => EditorCall.run e (.setCursor p)).process.live.get? id =
      (s.live.get? id).map fun f =>
        (s.editor.cursorMoveSince (EditorCall.run s.editor (.setCursor p))).elim f fun m =>
          s.underMove m id f := by
  have hc : (EditorCall.setCursor p).Mutates := trivial
  have ht := h.host _ (hc.permits s)
  have hchanges : (EditorCall.run s.editor (.setCursor p)).markerChanges = [] :=
    (s.editor.markerChanges_setCursor p).trans hq.1
  have hmoves : (EditorCall.run s.editor (.setCursor p)).cursorMoves =
      (s.editor.cursorMoveSince (EditorCall.run s.editor (.setCursor p))).toList := by
    rw [hc.cursorMoves_run, hq.2, List.nil_append]
  have hlive := get?_live_processRound ht hon hmoves id
  -- no marker notifications, so the round is the move of the cursor alone
  have hfollowed : (s.host fun e => EditorCall.run e (.setCursor p)).followed =
      (s.host fun e => EditorCall.run e (.setCursor p)).emptied := by
    show (EditorCall.run s.editor (.setCursor p)).markerChanges.foldl _ _ = _
    rw [hchanges]
    rfl
  have hquiet : (s.host fun e => EditorCall.run e (.setCursor p)).processRound.Quiet := by
    rw [processRound_eq, hfollowed]
    exact List.foldlRecOn (motive := Quiet) _ _ ⟨rfl, rfl⟩ fun t ht m _ => quiet_onCursorMove ht m
  obtain ⟨n, hn⟩ := exists_process_eq (s.host fun e => EditorCall.run e (.setCursor p))
  rw [processRounds_of_quiet hquiet] at hn
  rw [hfollowed, ← hn] at hlive
  exact hlive

/-- A call to move the cursor takes no folding down, moves none, and shows and hides none. -/
lemma Watched.at_setCursor (h : s.Watched) (hq : s.Quiet) (p : Point) (ha : s.At id f r) :
    ∃ f', (s.host fun e => EditorCall.run e (.setCursor p)).process.At id f' r ∧
      f'.label.isHidden = f.label.isHidden := by
  have hc : (EditorCall.setCursor p).Mutates := trivial
  have ht := h.tracked.host _ (hc.permits s)
  have hlive := h.tracked.get?_live_setCursor h.enabled hq p id
  rw [ha.live, Option.map_some] at hlive
  have ha₁ : (s.host fun e => EditorCall.run e (.setCursor p)).At id f r := ⟨ha.live, ha.marker⟩
  refine ⟨_, (ht.remains_process.at ha₁ hlive).1, ?_⟩
  cases s.editor.cursorMoveSince (EditorCall.run s.editor (.setCursor p)) with
  | none => rfl
  | some m => exact isHidden_underMove _ m id f

end FoldedEditor

/-! ## Completeness -/

namespace AutoFolder

variable {e : Editor} {a b : AutoFolder} {id : FoldingId} {f : Folding} {r : Range}

/-- A folding that has a range has its marker there. -/
lemma Attended.exists_at (h : a.Attended) (hf : a.folded.live.get? id = some f)
    (hr : a.folded.rangeOf? id = some r) : a.folded.At id f r := by
  obtain ⟨g, ha⟩ := h.watched.tracked.at_of_rangeOf? (h.quiet id f hf) hr
  obtain rfl := Option.some.inj (hf.symm.trans ha.live)
  exact ha

/-- A click on a folding that is shown leaves it shown. It is highlighted then if it was so before or
the cursor stood elsewhere. -/
lemma Attended.click (h : a.Attended) (hf : a.folded.live.get? id = some f)
    (hr : a.folded.rangeOf? id = some r) (hshown : f.label.isHidden = false) :
    ∃ f', (a.click id).2.folded.live.get? id = some f' ∧ f'.label.isHidden = false ∧
      (f'.info.highlighted = true ↔
        f.info.highlighted = true ∨ r.contains a.folded.editor.cursor = false) := by
  have hq := h.quiet id f hf
  have ha := h.exists_at hf hr
  obtain ⟨x, hx, hstands⟩ := h.watched.standing.firm id f r ha
  obtain ⟨hstart, -, hlt⟩ := hstands.holds hx
  obtain ⟨f', ha', hhidden⟩ := h.watched.at_setCursor hq r.start ha
  obtain ⟨f₀, hf₀, -, hlaw⟩ := h.watched.highlighted_iff hq
    (show (EditorCall.setCursor r.start).Mutates from trivial) ha'
  obtain rfl : f = f₀ := Option.some.inj (hf.symm.trans hf₀)
  -- the cursor lands on the start of the range
  have hinside :
      r.contains (EditorCall.run a.folded.editor (.setCursor r.start)).cursor = true := by
    show r.contains (a.folded.editor.text.clip r.start) = true
    rw [show a.folded.editor.text.clip r.start = r.start from hstart]
    exact decide_eq_true ⟨le_refl _, le_of_lt hlt⟩
  rw [click_eq hr]
  exact ⟨f', ha'.live, hhidden.trans hshown, by simp [hlaw, hhidden, hshown, hinside]⟩

/-- **Completeness, up to what is overlooked.** After every operation of a session a folding that is
shown is highlighted exactly if the cursor is in its range and the operation has not overlooked it.
A click on a folding that is shown leaves it shown, and highlighted exactly if it was so before or
the cursor stood elsewhere. -/
theorem Session.highlighted_iff_not_overlooked (h : Session e a) :
    (∀ b, a.Operates b → ∀ id f r, b.folded.live.get? id = some f →
      b.folded.rangeOf? id = some r → f.label.isHidden = false →
        (f.info.highlighted = true ↔
          r.contains b.folded.editor.cursor = true ∧ ¬a.Overlooks b id)) ∧
    ∀ id f r, a.folded.live.get? id = some f → a.folded.rangeOf? id = some r →
      f.label.isHidden = false →
        ∃ f', (a.click id).2.folded.live.get? id = some f' ∧ f'.label.isHidden = false ∧
          (f'.info.highlighted = true ↔
            f.info.highlighted = true ∨ r.contains a.folded.editor.cursor = false) := by
  obtain ⟨b, hredrawn, hattended⟩ := h.exists_attended
  constructor
  · intro a' hop id f r hf hr hshown
    obtain ⟨b', hop', hredrawn'⟩ := hredrawn.operates hop
    obtain ⟨hattended', hupdates⟩ := hattended.operates hop'
    rw [← hredrawn'.folded.live] at hf
    rw [← hredrawn'.folded.rangeOf?] at hr
    rw [← hredrawn'.folded.1.cursor, ← hredrawn.overlooks_iff hredrawn']
    exact hupdates id f r (hattended'.exists_at hf hr) hshown
  · intro id f r hf hr hshown
    rw [← hredrawn.folded.live] at hf
    rw [← hredrawn.folded.rangeOf?] at hr
    rw [← (hredrawn.click id).folded.live, ← hredrawn.folded.1.cursor]
    exact hattended.click hf hr hshown

/-- A folding that is hidden and shown again under the cursor is overlooked. The cursor goes past
its end, and a click brings the highlighting back. -/
theorem highlighted_iff_not_overlooked_shown_again :
    let e : Editor := { text := "template<class T> x".toList }
    let a := (ofEditor e).foldAll.2
    let b := (a.edit fun e => e.fold ⟨⟨0, 0⟩, ⟨0, 18⟩⟩).2
    let c := (b.edit fun e => ((), e.destroyFold 4)).2
    let d := (c.edit fun e => ((), e.setCursor ⟨0, 18⟩)).2
    Session e b ∧ Session e d ∧
      (∃ f, c.folded.live.get? 1 = some f ∧ f.label.isHidden = false ∧ b.Overlooks c 1 ∧
        f.info.highlighted = false) ∧
      ∃ f, (d.click 1).2.folded.live.get? 1 = some f ∧ f.info.highlighted = true := by
  intro e a b c d
  have ha : Session e a := .next (.opened _) .foldAll
  have hb : Session e b := .next ha (.edit _ (.fold ⟨⟨0, 0⟩, ⟨0, 18⟩⟩) trivial rfl)
  have hop : b.Operates c := .edit _ (.destroyFold 4) trivial rfl
  have hd : Session e d := .next (.next hb hop) (.edit _ (.setCursor ⟨0, 18⟩) trivial rfl)
  refine ⟨hb, hd, ?_, ?_⟩
  · have hhidden : (b.folded.live.get? 1).any (!·.info.highlighted) = true := by decide +kernel
    have hshown : (c.folded.live.get? 1).any (!·.label.isHidden) = true := by decide +kernel
    have hr : c.folded.rangeOf? 1 = some ⟨⟨0, 0⟩, ⟨0, 17⟩⟩ := by decide +kernel
    obtain ⟨g, hg, hg'⟩ := (Option.any_eq_true _ _).1 hhidden
    obtain ⟨f, hf, hf'⟩ := (Option.any_eq_true _ _).1 hshown
    have hoverlooks : b.Overlooks c 1 := ⟨g, _, hg, by simpa using hg', hr, by decide +kernel⟩
    have hiff := hb.highlighted_iff_not_overlooked.1 c hop 1 f _ hf hr (by simpa using hf')
    exact ⟨f, hf, by simpa using hf', hoverlooks, by simpa [hoverlooks] using hiff⟩
  · have hshown : (d.folded.live.get? 1).any (!·.label.isHidden) = true := by decide +kernel
    have hr : d.folded.rangeOf? 1 = some ⟨⟨0, 0⟩, ⟨0, 17⟩⟩ := by decide +kernel
    have hcursor : (⟨⟨0, 0⟩, ⟨0, 17⟩⟩ : Range).contains d.folded.editor.cursor = false := by
      decide +kernel
    -- The run has been evaluated: from here on the folder is any with these values.
    clear_value d
    obtain ⟨f, hf, hf'⟩ := (Option.any_eq_true _ _).1 hshown
    obtain ⟨g, hg, -, hiff⟩ := hd.highlighted_iff_not_overlooked.2 1 f _ hf hr (by simpa using hf')
    exact ⟨g, hg, hiff.2 (.inr hcursor)⟩

/-- Text in front of a folding goes, and the folding comes under the cursor. It is shown, and wider
than a point on the screen, but it is not highlighted, and a click does not highlight it. -/
theorem shown_under_cursor_not_highlighted :
    let e : Editor := { text := "abtemplate<class T> s;".toList }
    let a := ((ofEditor e).edit fun e => ((), e.setCursor ⟨0, 1⟩)).2.foldAll.2
    let b := (a.edit fun e => e.replace ⟨⟨0, 0⟩, ⟨0, 2⟩⟩ []).2
    let r : Range := ⟨⟨0, 0⟩, ⟨0, 17⟩⟩
    Session e b ∧ b.folded.rangeOf? 1 = some r ∧ r.contains b.folded.editor.cursor = true ∧
      (b.folded.editor.screenRange r).isPoint = false ∧
      (b.folded.live.get? 1).any (fun f => !f.label.isHidden && !f.info.highlighted) = true ∧
      ((b.click 1).2.folded.live.get? 1).any
        (fun f => !f.label.isHidden && !f.info.highlighted) = true := by
  intro e a b r
  have hsession : Session e b := .next (.next (.next (.opened _)
    (.edit _ (.setCursor ⟨0, 1⟩) trivial rfl)) .foldAll)
    (.edit _ (.replace ⟨⟨0, 0⟩, ⟨0, 2⟩⟩ []) trivial rfl)
  exact ⟨hsession, by decide +kernel, by decide +kernel, by decide +kernel, by decide +kernel,
    by decide +kernel⟩

end AutoFolder

end TemplateFolding
