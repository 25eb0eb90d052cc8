import TemplateFolding.Proofs.NoHistory

/-!
# Foldings through a round of notifications

`Tracked` says that every folding looks right for some extent that its notifications lead to. This
file says which extent that is after the notifications of a round are applied: the one the folding
had when the queue was drained. Other foldings may have been taken down since, but what this does to
the extent is queued anew.

It also follows the highlighting. The notification of a marker ends the highlighting of a folding
only if it hides the folding, and a move of the cursor changes the highlighting of the foldings it
leaves and enters on the rows where it starts and ends. A move on the screen alone changes nothing.
-/

namespace TemplateFolding

open Relation

/-! ## What is left -/

namespace FoldedEditor

variable {s s' s'' t : FoldedEditor} {drained rest : List MarkerChange} {id : FoldingId}
  {f f' : Folding} {known known' : Range}

/-- The marker of every folding is known to belong to it. -/
def KnowsMarkers (s : FoldedEditor) : Prop :=
  ∀ id f, s.live.get? id = some f → s.owners.get? f.marker = some id

lemma Tracked.knowsMarkers (h : s.Tracked drained) : s.KnowsMarkers := fun _ _ hf => h.owner hf

/-- In `s'` some foldings of `s` are gone with their folds, and nothing else has happened to the
text, the cursor, the folds and the ranges of the foldings that are left. -/
structure Remains (s s' : FoldedEditor) : Prop where
  text : s'.editor.text = s.editor.text
  cursor : s'.editor.cursor = s.editor.cursor
  nextId : s.editor.nextId ≤ s'.editor.nextId
  live : ∀ id f', s'.live.get? id = some f' → ∃ f, s.live.get? id = some f ∧
    f'.marker = f.marker ∧ f'.folds = f.folds ∧ f'.initialScreen = f.initialScreen
  markers : ∀ id f', s'.live.get? id = some f' →
    s'.editor.markers.get? f'.marker = s.editor.markers.get? f'.marker
  folds : ∀ k, s'.editor.folds.get? k = s.editor.folds.get? k ∨
    s'.editor.folds.get? k = none ∧
      ∃ id f, s.live.get? id = some f ∧ s'.live.get? id = none ∧ k ∈ f.folds.folds

namespace Remains

lemma refl (s : FoldedEditor) : s.Remains s where
  text := rfl
  cursor := rfl
  nextId := Nat.le_refl _
  live := fun _ f' hf => ⟨f', hf, rfl, rfl, rfl⟩
  markers := fun _ _ _ => rfl
  folds := fun _ => .inl rfl

lemma fresh (h : s.Remains s') (hid : s.live.get? id = none) : s'.live.get? id = none := by
  cases hf : s'.live.get? id with
  | none => rfl
  | some f' =>
    obtain ⟨f, hf', -⟩ := h.live id f' hf
    rw [hid] at hf'
    exact absurd hf' (by simp)

lemma trans (h : s.Remains s') (h' : s'.Remains s'') : s.Remains s'' where
  text := h'.text.trans h.text
  cursor := h'.cursor.trans h.cursor
  nextId := Nat.le_trans h.nextId h'.nextId
  live := by
    intro id f'' hf''
    obtain ⟨f', hf', hmarker', hfolds', hinitial'⟩ := h'.live id f'' hf''
    obtain ⟨f, hf, hmarker, hfolds, hinitial⟩ := h.live id f' hf'
    exact ⟨f, hf, hmarker'.trans hmarker, hfolds'.trans hfolds, hinitial'.trans hinitial⟩
  markers := by
    intro id f'' hf''
    obtain ⟨f', hf', hmarker', -⟩ := h'.live id f'' hf''
    rw [h'.markers id f'' hf'', hmarker']
    exact h.markers id f' hf'
  folds := by
    intro k
    rcases h'.folds k with heq' | ⟨hnone', id, f', hf', hid, hk⟩
    · rcases h.folds k with heq | ⟨hnone, id, f, hf, hid, hk⟩
      · exact .inl (heq'.trans heq)
      · exact .inr ⟨heq'.trans hnone, id, f, hf, h'.fresh hid, hk⟩
    · obtain ⟨f, hf, -, hfolds, -⟩ := h.live id f' hf'
      exact .inr ⟨hnone', id, f, hf, hid, hfolds ▸ hk⟩

lemma emptied (h : s.Remains s') : s.Remains s'.emptied :=
  ⟨h.text, h.cursor, h.nextId, h.live, h.markers, h.folds⟩

end Remains

/-- The marker of a folding that is left is not the one of the folding that goes. -/
lemma KnowsMarkers.of_erase (ho : s.KnowsMarkers) (howner : s.owners.get? f.marker = some id)
    {j : FoldingId} {g : Folding} (hg : (s.live.erase id).get? j = some g) :
    s.live.get? j = some g ∧ g.marker ≠ f.marker := by
  rw [Table.get?_erase] at hg
  split at hg
  · exact absurd hg (by simp)
  · rename_i hj
    refine ⟨hg, fun heq => hj ?_⟩
    have hj' := ho j g hg
    rw [heq, howner] at hj'
    exact (Option.some.inj hj').symm

/-- A step takes at most one folding down, and leaves the range of every other alone. -/
lemma Step.remains (h : Step s s') (ho : s.KnowsMarkers) : s.Remains s' ∧ s'.KnowsMarkers := by
  cases h with
  | idle => exact ⟨.refl s, ho⟩
  | @relabel id f f' e h hf howner hmarker hfolds _ hinitial hredraw =>
    refine ⟨⟨hredraw.text, hredraw.cursor, hredraw.nextId, ?_, ?_, ?_⟩, ?_⟩
    · intro j g hg
      rw [Table.get?_insert] at hg
      split at hg
      · rename_i heq
        obtain rfl := Option.some.inj hg
        exact ⟨f, heq ▸ hf, hmarker, hfolds, hinitial⟩
      · exact ⟨g, hg, rfl, rfl, rfl⟩
    · intro j g _
      rw [hredraw.markers]
    · intro k
      exact .inl (by rw [hredraw.folds])
    · intro j g hg
      rw [Table.get?_insert] at hg
      split at hg
      · rename_i heq
        obtain rfl := Option.some.inj hg
        rw [hmarker, heq]
        exact howner
      · exact ho j g hg
  | @destroy id f hf howner hredraw =>
    obtain ⟨htext, hnext, -, hfolds⟩ :=
      Editor.destroyFolds_spec f.folds (f.label.destroy s.editor)
    have hcursor := (f.folds.destroy_still (f.label.destroy s.editor)).1
    unfold FoldedEditor.destroyFolding
    rw [hf]
    refine ⟨⟨htext.trans hredraw.text, hcursor.trans hredraw.cursor, ?_, ?_, ?_, ?_⟩, ?_⟩
    · exact Nat.le_trans hredraw.nextId (Nat.le_of_eq hnext.symm)
    · intro j g hg
      exact ⟨g, (ho.of_erase howner hg).1, rfl, rfl, rfl⟩
    · intro j g hg
      refine (Table.get?_erase_of_ne _ (ho.of_erase howner hg).2).trans ?_
      rw [markers_destroyFolds, hredraw.markers]
    · intro k
      by_cases hk : k ∈ f.folds.folds
      · exact .inr ⟨(hfolds k).trans (if_pos hk), id, f, hf, Table.get?_erase_self _ _, hk⟩
      · exact .inl ((hfolds k).trans (by rw [if_neg hk, hredraw.folds]))
    · intro j g hg
      obtain ⟨hg', hmarker⟩ := ho.of_erase howner hg
      exact (Table.get?_erase_of_ne _ hmarker).trans (ho j g hg')

/-- Steps take foldings down with their folds, and leave all else as it is. -/
lemma steps_remain (h : ReflTransGen Step s s') (ho : s.KnowsMarkers) :
    s.Remains s' ∧ s'.KnowsMarkers := by
  induction h with
  | refl => exact ⟨.refl s, ho⟩
  | tail _ hlast ih =>
    obtain ⟨hremains, ho'⟩ := hlast.remains ih.2
    exact ⟨ih.1.trans hremains, ho'⟩

/-- Applying notifications only takes foldings down. -/
theorem Tracked.remains_process (h : s.Tracked []) : s.Remains s.process := by
  refine (h.process_induction (P := fun t => s.Remains t ∧ t.KnowsMarkers) ?_ ?_ ?_).1
  · exact ⟨.refl s, h.knowsMarkers⟩
  · intro t ht
    exact ⟨ht.1.emptied, ht.2⟩
  · intro t t' hstep ht
    obtain ⟨hremains, ho⟩ := hstep.remains ht.2
    exact ⟨ht.1.trans hremains, ho⟩

/-! ## The extent that a round catches up with -/

/-- A step queues what it does to the extent of a folding that is left. -/
lemma Step.tracks (h : Step s s') (ho : s.KnowsMarkers) (hf : s'.live.get? id = some f)
    (ht : s.editor.Tracks f.marker known) : s'.editor.Tracks f.marker known := by
  cases h with
  | idle => exact ht
  | relabel _ _ _ _ _ _ hredraw => exact hredraw.tracks ht
  | @destroy j g hg howner hredraw =>
    unfold FoldedEditor.destroyFolding at hf ⊢
    rw [hg] at hf ⊢
    have hne := (ho.of_erase howner hf).2
    have htracks := (spares_destroyFolds g.folds (g.label.destroy s.editor) f.marker).tracks _
      (hredraw.tracks ht)
    exact (Editor.spares_destroyMarker _ hne).tracks _ htracks

/-- Steps lose track of no marker whose folding stays. -/
lemma steps_tracks (h : ReflTransGen Step s s') (ho : s.KnowsMarkers)
    (hf : s'.live.get? id = some f) (ht : s.editor.Tracks f.marker known) :
    s'.editor.Tracks f.marker known := by
  induction h using ReflTransGen.head_induction_on with
  | refl => exact ht
  | head hstep hrest ih =>
    -- the folding is there all along, so each step on the way keeps track of it
    obtain ⟨hremains, ho'⟩ := hstep.remains ho
    obtain ⟨g, hg, hmarker, -⟩ := (steps_remain hrest ho').1.live id f hf
    rw [hmarker] at ht
    exact ih ho' (hmarker ▸ hstep.tracks ho hg ht)

end FoldedEditor

/-- The queue leads from only one extent to the present one. -/
lemma Editor.Tracks.unique {e : Editor} {k : MarkerId} {known known' : Range}
    (h : e.Tracks k known) (h' : e.Tracks k known') : known = known' := by
  obtain ⟨m, hm, hacc⟩ := h
  obtain ⟨m', hm', hacc'⟩ := h'
  rw [hm] at hm'
  obtain rfl := Option.some.inj hm'
  unfold Editor.Accounts at hacc hacc'
  split at hacc
  · rename_i hnone
    rw [hnone] at hacc'
    exact hacc.2.symm.trans hacc'.2
  · rename_i c hsome
    rw [hsome] at hacc'
    exact hacc.1.symm.trans hacc'.1

lemma Label.style_draw (l : Label) (e : Editor) : (l.draw e).1.style = l.style := by
  unfold draw
  split <;> rfl

lemma Label.style_hide (l : Label) (e : Editor) : (l.hide e).1.style = l.style := by
  unfold hide
  split <;> rfl

/-- `f'` is `f` after a notification of its marker: highlighted as before, unless it is hidden. -/
structure Folding.Continues (f f' : Folding) : Prop where
  marker : f'.marker = f.marker
  highlight : f'.info.highlighted = f.info.highlighted ∧ f'.label.style = f.label.style ∨
    f'.label.isHidden = true ∧ f'.info.highlighted = false ∧ f'.label.style = .normal

lemma Folding.Continues.refl (f : Folding) : f.Continues f := ⟨rfl, .inl ⟨rfl, rfl⟩⟩

namespace FoldedEditor

variable {s s' t : FoldedEditor} {drained rest : List MarkerChange} {c : MarkerChange}
  {id : FoldingId} {f f' : Folding}

/-- A notification concerns no folding, or it takes one down, or it is valid and one continues. One
that has its first shape is not taken down. -/
lemma Tracked.onMarkerChange_cases (h : s.Tracked drained) (c : MarkerChange) :
    ((s.onMarkerChange c).live = s.live ∧
        ∀ id f, s.live.get? id = some f → f.marker ≠ c.marker) ∨
      ∃ id f, s.live.get? id = some f ∧ f.marker = c.marker ∧
        ((s.onMarkerChange c).live = s.live.erase id ∧
            ¬(c.valid = true ∧ f.initialScreen.isTranslationOf c.new = true) ∨
          c.valid = true ∧
            ∃ f', f.Continues f' ∧ (s.onMarkerChange c).live = s.live.insert id f') := by
  have hspec := fun f : Folding => classify_spec c.old c.new f.initialScreen c.valid c.textChanged
  refine onMarkerChange_elim s c ?_ ?_ ?_ ?_ ?_
  · exact fun hidle => .inl ⟨rfl, fun id f hf heq => hidle id f (heq ▸ h.owner hf) hf⟩
  · intro id f hc
    obtain ⟨hvalid, -⟩ := hc.outcome ▸ hspec f
    refine .inr ⟨id, f, hc.live, h.marker_of_concerns hc, .inr ⟨hvalid, _, ?_, rfl⟩⟩
    exact ⟨rfl, .inl ⟨rfl, rfl⟩⟩
  · intro id f hc
    obtain ⟨hvalid, -⟩ := hc.outcome ▸ hspec f
    refine .inr ⟨id, f, hc.live, h.marker_of_concerns hc, .inr ⟨hvalid, _, ?_, rfl⟩⟩
    exact ⟨rfl, .inl ⟨rfl, Label.style_draw _ _⟩⟩
  · intro id f hc
    obtain ⟨hvalid, -⟩ := hc.outcome ▸ hspec f
    refine .inr ⟨id, f, hc.live, h.marker_of_concerns hc, .inr ⟨hvalid, _, ?_, rfl⟩⟩
    exact ⟨rfl, .inr ⟨Label.isHidden_hide _ _, rfl, Label.style_hide _ _⟩⟩
  · intro id f outcome hc hdown
    have hdestroy : (s.destroyFolding id).live = s.live.erase id := by
      unfold FoldedEditor.destroyFolding
      rw [hc.live]
    have hshape : ¬(c.valid = true ∧ f.initialScreen.isTranslationOf c.new = true) := by
      have hfailed := hc.outcome ▸ hspec f
      rcases hdown with rfl | rfl <;> simp [hfailed]
    exact .inr ⟨id, f, hc.live, h.marker_of_concerns hc, .inl ⟨hdestroy, hshape⟩⟩

/-- A notification takes its folding down or continues it, and does not concern the others. -/
lemma Tracked.live_onMarkerChange (h : s.Tracked drained)
    (hf : (s.onMarkerChange c).live.get? id = some f') :
    ∃ f, s.live.get? id = some f ∧
      (f.marker ≠ c.marker ∧ f' = f ∨ f.marker = c.marker ∧ c.valid = true ∧ f.Continues f') := by
  rcases h.onMarkerChange_cases c with
    ⟨hlive, hne⟩ | ⟨j, g, hg, hmarker, ⟨hdone, -⟩ | ⟨hv, g', hg', hdone⟩⟩
  · rw [hlive] at hf
    exact ⟨f', hf, .inl ⟨hne id f' hf, rfl⟩⟩
  · rw [hdone] at hf
    obtain ⟨hf', hne⟩ := h.knowsMarkers.of_erase (h.owner hg) hf
    exact ⟨f', hf', .inl ⟨hmarker ▸ hne, rfl⟩⟩
  · rw [hdone, Table.get?_insert] at hf
    split at hf
    · rename_i heq
      obtain rfl := Option.some.inj hf
      exact ⟨g, heq ▸ hg, .inr ⟨hmarker, hv, hg'⟩⟩
    · rename_i hne
      exact ⟨f', hf, .inl ⟨hmarker ▸ h.marker_ne hg hf hne, rfl⟩⟩

/-- No marker has two notifications in a round, so a folding is concerned by at most one. -/
lemma Tracked.live_onMarkerChanges (h : s.Tracked drained)
    (hd : drained.Pairwise fun c d => c.marker ≠ d.marker)
    (hf : (drained.foldl FoldedEditor.onMarkerChange s).live.get? id = some f') :
    ∃ f, s.live.get? id = some f ∧ f.Continues f' ∧
      match MarkerChange.of? f.marker drained with
      | none => f' = f
      | some c => c.valid = true := by
  induction drained generalizing s with
  | nil => exact ⟨f', hf, .refl f', rfl⟩
  | cons c rest ih =>
    obtain ⟨hc, hrest⟩ := List.pairwise_cons.1 hd
    obtain ⟨g, hg, hcont, hlater⟩ := ih (h.onMarkerChange hd) hrest hf
    obtain ⟨f, hf, ⟨hne, rfl⟩ | ⟨hmarker, hv, hcont'⟩⟩ := h.live_onMarkerChange hg
    · refine ⟨g, hf, hcont, ?_⟩
      rwa [MarkerChange.of?_cons, if_neg (Ne.symm hne)]
    · -- nothing about this folding waits behind its notification
      have hgone : MarkerChange.of? g.marker rest = none := by
        rw [hcont'.marker, hmarker]
        exact MarkerChange.of?_eq_none fun d hmem hdm => hc d hmem hdm.symm
      rw [hgone] at hlater
      subst hlater
      refine ⟨f, hf, hcont', ?_⟩
      rw [MarkerChange.of?_cons, if_pos hmarker.symm]
      exact hv

/-- The state after the marker notifications of a round, before the moves of the cursor. -/
def followed (s : FoldedEditor) : FoldedEditor :=
  s.editor.markerChanges.foldl FoldedEditor.onMarkerChange s.emptied

lemma processRound_eq (s : FoldedEditor) :
    s.processRound = s.editor.cursorMoves.foldl FoldedEditor.onCursorMove s.followed := rfl

lemma Tracked.followed (h : s.Tracked []) : s.followed.Tracked [] :=
  h.drain.onMarkerChanges h.tidy.distinct

lemma Tracked.steps_followed (h : s.Tracked []) : ReflTransGen Step s.emptied s.followed :=
  h.drain.steps_onMarkerChanges h.tidy.distinct

lemma Tracked.remains_followed (h : s.Tracked []) : s.Remains s.followed :=
  (Remains.refl s).emptied.trans (steps_remain h.steps_followed h.knowsMarkers).1

/-- After the marker notifications of a round every folding that is left looks right for the extent
it had at the start of the round. -/
theorem Tracked.looks_followed (h : s.Tracked []) (hf : s.followed.live.get? id = some f') :
    ∃ f m, s.live.get? id = some f ∧ f.Continues f' ∧ s.editor.markers.get? f'.marker = some m ∧
      m.valid = true ∧ s.followed.Looks id f' (s.editor.screenRange m.range) := by
  obtain ⟨f, hlive, hcont, hconcerned⟩ := h.drain.live_onMarkerChanges h.tidy.distinct hf
  obtain ⟨known, hfol⟩ := h.follows id f hlive
  obtain ⟨m, hm, hacc⟩ := hfol.tracks
  have hvalid : m.valid = true := by
    unfold Editor.Accounts Editor.pending? at hacc
    cases hc : MarkerChange.of? f.marker s.editor.markerChanges with
    | none =>
      rw [hc] at hacc
      exact hacc.1
    | some c =>
      rw [hc] at hacc hconcerned
      exact hacc.2.1 ▸ hconcerned
  rw [← hcont.marker] at hm
  -- with the queue drained, the extent to start from is the present one
  have hstart : s.emptied.editor.Tracks f'.marker (s.editor.screenRange m.range) :=
    ⟨m, hm, hvalid, rfl⟩
  have hnow := steps_tracks h.steps_followed h.knowsMarkers hf hstart
  obtain ⟨known', hfol'⟩ := h.followed.follows id f' hf
  have hsame := Editor.Tracks.unique hfol'.tracks hnow
  exact ⟨f, m, hlive, hcont, hm, hvalid, hsame ▸ hfol'.looks⟩

end FoldedEditor

/-! ## Moves of the cursor -/

/-- The folding with its highlighting turned on or off. -/
def Folding.highlight (f : Folding) (on : Bool) : Folding :=
  { f with
    label := { f.label with style := if on then .underCursor else .normal }
    info := { f.info with highlighted := on } }

@[simp] lemma Folding.isHidden_highlight (f : Folding) (on : Bool) :
    (f.highlight on).label.isHidden = f.label.isHidden := rfl

@[simp] lemma Folding.highlight_highlight (f : Folding) (on on' : Bool) :
    (f.highlight on).highlight on' = f.highlight on' := rfl

namespace FoldedEditor

variable {s s' : FoldedEditor} {m : CursorMove} {id : FoldingId}

/-- Highlighting concerns one folding, and that only if it is shown. -/
lemma get?_live_setHighlight (s : FoldedEditor) (id : FoldingId) (on : Bool) (j : FoldingId) :
    (s.setHighlight id on).live.get? j = (s.live.get? j).map fun f =>
      if j = id ∧ f.label.isHidden = false then f.highlight on else f := by
  refine setHighlight_elim s id on (fun hidle => ?_) fun f hf hshown => ?_
  · by_cases hj : j = id
    · subst hj
      cases hf : s.live.get? j with
      | none => rfl
      | some f => simp [hidle f hf]
    · simp [hj]
  · show (s.live.insert id _).get? j = _
    rw [Table.get?_insert]
    by_cases hj : j = id
    · rw [hj, if_pos rfl, hf, Option.map_some, if_pos (show id = id ∧ _ from ⟨rfl, hshown⟩)]
      rfl
    · simp [hj]

/-- Highlighting several foldings concerns each of them once. -/
lemma get?_live_setHighlights (ids : List FoldingId) (s : FoldedEditor) (on : Bool)
    (j : FoldingId) :
    (ids.foldl (fun s id => s.setHighlight id on) s).live.get? j = (s.live.get? j).map fun f =>
      if j ∈ ids ∧ f.label.isHidden = false then f.highlight on else f := by
  induction ids generalizing s with
  | nil => simp
  | cons id ids ih =>
    rw [List.foldl_cons, ih, get?_live_setHighlight, Option.map_map]
    congr 1
    funext f
    -- turning the highlighting on or off twice is doing it once
    cases hhidden : f.label.isHidden with
    | true => simp [hhidden]
    | false => by_cases hj : j = id <;> by_cases hmem : j ∈ ids <;> simp [hj, hmem, hhidden]

/-- What a move of the cursor makes of a folding. -/
def underMove (s : FoldedEditor) (m : CursorMove) (id : FoldingId) (f : Folding) : Folding :=
  let row := s.highlighter.index.rowOf.get? id
  if f.label.isHidden then f
  else if row = some m.newScreen.row ∧ (s.rangeOf? id).any (Highlighter.enters m) then f.highlight true
  else if row = some m.oldScreen.row ∧ (s.rangeOf? id).any (Highlighter.leaves m) then
    f.highlight false
  else f

/-- A move of the cursor makes of each folding what the index and its range say, whatever the order
in which the foldings are examined. -/
theorem get?_live_onCursorMove (h : s.highlighter.index.Consistent)
    (hon : s.highlighter.enabled = true) (m : CursorMove) (id : FoldingId) :
    (s.onCursorMove m).live.get? id = (s.live.get? id).map (s.underMove m id) := by
  unfold FoldedEditor.onCursorMove Highlighter.onCursorMove
  rw [if_pos hon, List.foldl_append, List.foldl_map, List.foldl_map]
  show (List.foldl (fun s id => s.setHighlight id true)
    (List.foldl (fun s id => s.setHighlight id false) s _) _).live.get? id = _
  rw [get?_live_setHighlights, get?_live_setHighlights, Option.map_map]
  congr 1
  funext f
  simp only [List.mem_filter, h id]
  unfold underMove
  cases hhidden : f.label.isHidden with
  | true => simp [hhidden]
  | false => 
    simp only [Function.comp, hhidden, and_true]
    split_ifs <;> simp_all

end FoldedEditor

/-! ## Moves on the screen alone -/

namespace Editor

variable {e : Editor}

/-- No move is queued that takes the cursor elsewhere in the buffer. -/
def Still (e : Editor) : Prop :=
  ∀ m ∈ e.cursorMoves, m.old = m.new

/-- A queued move leads from the cursor before the change to the cursor after it. -/
lemma mem_cursorMoveSince {before after : Editor} {m : CursorMove}
    (h : m ∈ (cursorMoveSince before after).toList) : m.old = before.cursor ∧ m.new = after.cursor ∧
      m.oldScreen = before.screenPoint before.cursor ∧
      m.newScreen = after.screenPoint after.cursor := by
  unfold cursorMoveSince at h
  dsimp only at h
  split at h
  · exact absurd h (by simp)
  · obtain rfl : m = _ := by simpa using h
    exact ⟨rfl, rfl, rfl, rfl⟩

/-- A change that leaves the cursor where it is queues no move in the buffer. -/
lemma Still.track (h : e.Still) {change : Editor → Editor} (hcursor : (change e).cursor = e.cursor)
    (hmoves : (change e).cursorMoves = e.cursorMoves) : (Editor.track change e).Still := by
  intro m hm
  rcases List.mem_append.1 hm with hm | hm
  · exact h m (hmoves ▸ hm)
  · obtain ⟨hold, hnew, -⟩ := mem_cursorMoveSince hm
    exact hold.trans (hcursor.symm.trans hnew.symm)

/-- Unfolding moves the cursor on the screen alone. -/
lemma Still.destroyFold (h : e.Still) (id : FoldId) : (e.destroyFold id).Still := by
  unfold Editor.destroyFold
  split
  · exact h.track rfl rfl
  · exact h

lemma Still.fold (h : e.Still) (r : Range) : (e.fold r).2.Still :=
  Still.track (e := { e with nextId := e.nextId + 1 }) h rfl rfl

lemma Still.destroyFolds (h : e.Still) (p : PartialFold) : (p.destroy e).Still :=
  List.foldlRecOn p.folds _ h fun _ h id _ => h.destroyFold id

end Editor

namespace FoldedEditor

variable {s s' : FoldedEditor} {m : CursorMove}

/-- A move on the screen alone changes no highlighting. -/
lemma onCursorMove_of_still (hm : m.old = m.new) : s.onCursorMove m = s := by
  have hleaves : Highlighter.leaves m = fun _ => false := by
    funext r
    simp [Highlighter.leaves, hm]
  have henters : Highlighter.enters m = fun _ => false := by
    funext r
    simp [Highlighter.enters, hm]
  unfold FoldedEditor.onCursorMove Highlighter.onCursorMove
  rw [hleaves, henters]
  simp

/-- Without moves in the buffer a round is following the markers. -/
lemma processRound_of_still (h : s.editor.Still) : s.processRound = s.followed := by
  rw [processRound_eq]
  exact List.foldlRecOn (motive := (· = s.followed)) s.editor.cursorMoves _ rfl
    fun t ht m hm => (onCursorMove_of_still (h m hm)).trans ht

/-- Taking a folding down does not move the cursor in the buffer. -/
lemma Step.still (h : Step s s') (hs : s.editor.Still) : s'.editor.Still := by
  cases h with
  | idle => exact hs
  | relabel _ _ _ _ _ _ hredraw => exact fun m hm => hs m (hredraw.cursorMoves ▸ hm)
  | @destroy id f hf howner hredraw =>
    unfold FoldedEditor.destroyFolding
    rw [hf]
    have hlabel : (f.label.destroy s.editor).Still := fun m hm => hs m (hredraw.cursorMoves ▸ hm)
    exact hlabel.destroyFolds f.folds

/-- Whatever is queued before a round, afterwards the cursor moves on the screen alone. -/
lemma Tracked.still_processRound (h : s.Tracked []) : s.processRound.editor.Still := by
  have hsteps := h.steps_processRound
  generalize s.processRound = t at hsteps
  induction hsteps with
  | refl => exact fun m hm => absurd hm (by simp [emptied])
  | tail _ hlast ih => exact hlast.still ih

end FoldedEditor

end TemplateFolding
