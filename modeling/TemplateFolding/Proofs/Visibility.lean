import TemplateFolding.Proofs.Processing

/-!
# When a folding is visible

A folding whose extent right after folding is not a point is in one of two conditions whenever its
notifications have been applied. Either its present extent is a translation of that first one, its
label is drawn and the row index has it on the row where it starts, or it has been collapsed to a
point by a fold of the host, and its label, its place in the index and its highlighting are gone.

The result holds for every run in which the host and the foldings take turns.
-/

namespace TemplateFolding

open Text PartialFold

/-! ## Making a folding -/

/-- What a partial fold that is made consists of. -/
lemma PartialFold.create_ok {e e' : Editor} {marker : MarkerId} {width : Nat} {p : PartialFold}
    (h : create e marker width = .ok (p, e')) :
    ∃ r, e.markerRange? marker = some r ∧ width ≤ (e.text.slice r).visualLength ∧
      p = ⟨marker, (foldEach e (pieces e.text r width)).1⟩ ∧
      e' = (foldEach e (pieces e.text r width)).2 := by
  unfold create at h
  split at h
  · simp at h
  · split at h
    · simp at h
    · rename_i r hr
      refine ⟨r, hr, ?_⟩
      simp only [bind, Except.bind, Editor.read, slice?] at h
      by_cases hread : e.text.offset r.start ≤ e.text.offset r.stop
      · simp only [if_pos hread] at h
        split_ifs at h with hwidth
        have hpair := Prod.mk.inj (Except.ok.inj h)
        exact ⟨Nat.le_of_not_lt hwidth, hpair.1.symm, hpair.2.symm⟩
      · simp [if_neg hread] at h

/-- Folding touches neither the text nor the markers and decorations. -/
lemma PartialFold.foldEach_frame (ranges : List Range) (e : Editor) :
    (foldEach e ranges).2.text = e.text ∧ (foldEach e ranges).2.markers = e.markers ∧
      (foldEach e ranges).2.decorations = e.decorations ∧
      e.nextId ≤ (foldEach e ranges).2.nextId := by
  induction ranges generalizing e with
  | nil => exact ⟨rfl, rfl, rfl, Nat.le_refl _⟩
  | cons r ranges ih =>
    obtain ⟨htext, hmarkers, hdecorations, hnext⟩ := ih (e.fold r).2
    exact ⟨htext, hmarkers, hdecorations, Nat.le_trans (Nat.le_succ _) hnext⟩

/-- The marker of a new folding, its folds and its label are put in place. -/
def Editor.install (e : Editor) (request : FoldRequest) : PartialFold × Label × Editor :=
  let folded := foldEach (e.createMarker request.range).2
    (pieces e.text (e.clipRange request.range) request.preview.length)
  let labelled := Label.create folded.2 e.nextId request.preview
  (⟨e.nextId, folded.1⟩, labelled.1, labelled.2)

/-- The label of a new folding is styled after where the cursor stands. -/
def Label.styled (l : Label) (e : Editor) (underCursor : Bool) : Label × Editor :=
  if underCursor then l.setStyle e .underCursor else (l, e)

lemma Label.onlyDraws_styled (l : Label) (e : Editor) (underCursor : Bool) :
    e.OnlyDraws (l.styled e underCursor).2 := by
  unfold styled
  split_ifs
  · exact l.onlyDraws_setStyle e _
  · exact .refl e

/-- Styling a label for the cursor redraws it where it is. -/
lemma Label.styled_spec {l : Label} {e : Editor} (h : l.DrawnIn e) (ht : e.Tidy)
    (underCursor : Bool) :
    e.Redraws (l.styled e underCursor).2 l.marker ∧
      (l.styled e underCursor).1.DrawnIn (l.styled e underCursor).2 ∧
      (l.styled e underCursor).2.Tidy ∧ (l.styled e underCursor).1.marker = l.marker ∧
      (l.styled e underCursor).1.isHidden = l.isHidden ∧
      (l.styled e underCursor).1.text = l.text := by
  unfold Label.styled
  split_ifs
  · exact ⟨redraws_setStyle h _, drawnIn_setStyle h _, tidy_setStyle ht _, rfl, rfl, rfl⟩
  · exact ⟨Editor.Redraws.refl _ _, h, ht, rfl, rfl, rfl⟩

namespace FoldedEditor

variable {s s' : FoldedEditor} {drained : List MarkerChange} {id : FoldingId} {f : Folding}
  {request : FoldRequest} {info : FoldingInfo}

/-- The folding is registered under the extent that its marker has by now. -/
def adopt (s : FoldedEditor) (request : FoldRequest) (marker : MarkerId) (folds : PartialFold)
    (label : Label) : FoldingInfo × FoldedEditor :=
  let initialScreen :=
    (s.editor.markerScreenRange? marker).getD (s.editor.screenRange request.range)
  let underCursor := (s.editor.markerRange? marker).any (·.contains s.editor.cursor)
  let styled := label.styled s.editor underCursor
  let info : FoldingInfo := { highlighted := underCursor }
  (info, { s with editor := styled.2 }.register request.id
    { marker, folds, label := styled.1, initialScreen, info })

/-- The state in which the parts of a new folding are in place. -/
def installed (s : FoldedEditor) (request : FoldRequest) : FoldedEditor :=
  { s.process with editor := (s.process.editor.install request).2.2 }

/-- A folding that is made is installed, what this causes is applied, and it is adopted. -/
lemma createFolding_ok (h : s.createFolding request = .ok (info, s')) :
    request.preview.length ≤
        (s.process.editor.text.slice (s.process.editor.clipRange request.range)).visualLength ∧
      (s.installed request).process.adopt request s.process.editor.nextId
        (s.process.editor.install request).1 (s.process.editor.install request).2.1 =
          (info, s') := by
  unfold FoldedEditor.createFolding at h
  change (PartialFold.create (s.process.editor.createMarker request.range).2
    s.process.editor.nextId request.preview.length).bind _ = _ at h
  cases hcreate : PartialFold.create (s.process.editor.createMarker request.range).2
    s.process.editor.nextId request.preview.length with
  | error fault =>
    rw [hcreate] at h
    exact absurd h (by simp [Except.bind])
  | ok made =>
    rw [hcreate] at h
    obtain ⟨p, e⟩ := made
    obtain ⟨r, hr, hwidth, rfl, rfl⟩ := PartialFold.create_ok hcreate
    have hrange : (s.process.editor.createMarker request.range).2.markerRange?
        s.process.editor.nextId = some (s.process.editor.clipRange request.range) := by
      simp [Editor.markerRange?, Editor.createMarker]
    rw [hrange, Option.some.injEq] at hr
    subst hr
    refine ⟨hwidth, ?_⟩
    have htext : (s.process.editor.createMarker request.range).2.text = s.process.editor.text := rfl
    rw [htext] at h
    rw [← Except.ok.inj h]
    unfold FoldedEditor.adopt FoldedEditor.installed Editor.install Label.styled
    generalize PartialFold.foldEach (s.process.editor.createMarker request.range).2
      (pieces s.process.editor.text (s.process.editor.clipRange request.range)
        request.preview.length) = folded
    simp only [Bool.decide_eq_true]
    rfl

/-- The next number belongs to no marker of a folding. -/
lemma Tracked.owners_nextId (h : s.Tracked []) : s.owners.get? s.editor.nextId = none := by
  cases hown : s.owners.get? s.editor.nextId with
  | none => rfl
  | some id =>
    obtain ⟨f, hf, hmarker⟩ := (h.owners _ _).1 hown
    obtain ⟨known, hfol⟩ := h.follows id f hf
    obtain ⟨m, hm, -⟩ := hfol.tracks
    have hlt := h.tidy.markers _ _ hm
    rw [hmarker] at hlt
    exact absurd hlt (Nat.lt_irrefl _)

lemma Tracked.foldRanges (h : s.Tracked drained) (ranges : List Range) :
    ({ s with editor := (PartialFold.foldEach s.editor ranges).2 } : FoldedEditor).Tracked
      drained := by
  induction ranges generalizing s with
  | nil => exact h
  | cons r ranges ih =>
    have hfold : (s.host fun e => EditorCall.run e (.fold r)).Tracked drained :=
      h.host _ trivial
    exact ih hfold

/-- A label at a marker that belongs to no folding. -/
lemma Tracked.label (h : s.Tracked drained) {k : MarkerId} (text : Text)
    (howner : s.owners.get? k = none) (hk : k < s.editor.nextId) :
    ({ s with editor := (Label.create s.editor k text).2 } : FoldedEditor).Tracked drained :=
  h.host (.decorate k ⟨text, LabelStyle.normal.name⟩) ⟨howner, hk⟩

/-- The parts of a new folding are put in place behind the back of the others. -/
lemma Tracked.install (h : s.Tracked []) (request : FoldRequest) :
    ({ s with editor := (s.editor.install request).2.2 } : FoldedEditor).Tracked [] := by
  have hmarker : ({ s with editor := (s.editor.createMarker request.range).2 } :
      FoldedEditor).Tracked [] :=
    h.host (.createMarker request.range) trivial
  have hfolds := hmarker.foldRanges
    (pieces s.editor.text (s.editor.clipRange request.range) request.preview.length)
  have hnext := (PartialFold.foldEach_frame
    (pieces s.editor.text (s.editor.clipRange request.range) request.preview.length)
    (s.editor.createMarker request.range).2).2.2.2
  have hlabel := hfolds.label request.preview h.owners_nextId (Nat.lt_of_succ_le hnext)
  unfold Editor.install
  dsimp only at hlabel ⊢
  exact hlabel

/-- What the parts of a new folding look like before anything is applied. -/
lemma Tracked.install_spec (h : s.Tracked []) (request : FoldRequest) :
    (s.editor.install request).2.2.markers.get? s.editor.nextId =
        some ⟨s.editor.clipRange request.range, true⟩ ∧
      (s.editor.install request).2.1.DrawnIn (s.editor.install request).2.2 ∧
      (s.editor.install request).2.1.marker = s.editor.nextId ∧
      (s.editor.install request).2.1.isHidden = false ∧
      (s.editor.install request).2.1.text = request.preview := by
  obtain ⟨-, hmarkers, hdecorations, -⟩ := PartialFold.foldEach_frame
    (pieces s.editor.text (s.editor.clipRange request.range) request.preview.length)
    (s.editor.createMarker request.range).2
  unfold Editor.install Label.create
  dsimp only
  generalize PartialFold.foldEach (s.editor.createMarker request.range).2
    (pieces s.editor.text (s.editor.clipRange request.range) request.preview.length) = folded at *
  refine ⟨?_, ?_, Label.marker_draw _ _, Label.isHidden_draw _ _, Label.text_draw _ _⟩
  · refine (congrArg (Table.get? · s.editor.nextId) hmarkers).trans ?_
    exact Table.get?_insert_self _ _ _
  · -- nothing is drawn at a marker that has not been handed out
    refine Label.drawnIn_draw fun d x => ?_
    rw [hdecorations]
    constructor
    · rintro ⟨hx, hm⟩
      have hlt := h.tidy.decorated d x hx
      rw [hm] at hlt
      exact absurd hlt (Nat.lt_irrefl _)
    · rintro ⟨hd, -⟩
      exact absurd hd (by simp)

/-- A new folding on a marker of its own joins the others. -/
lemma Tracked.register (h : s.Tracked []) (hid : s.live.get? id = none)
    (hmarker : s.owners.get? f.marker = none) (hlabel : f.label.marker = f.marker)
    (hdrawn : f.label.DrawnIn s.editor) (hshown : f.label.isHidden = false)
    (htracks : s.editor.Tracks f.marker f.initialScreen) : (s.register id f).Tracked [] where
  tidy := h.tidy
  owners := by
    intro k j
    simp only [FoldedEditor.register, Table.get?_insert]
    by_cases hk : k = f.marker
    · rw [if_pos hk]
      by_cases hj : j = id
      · simp [hj, hk]
      · rw [if_neg hj]
        constructor
        · intro heq
          exact absurd (Option.some.inj heq).symm hj
        · rintro ⟨g, hg, hgm⟩
          have hown := h.owner hg
          rw [hgm, hk, hmarker] at hown
          exact absurd hown (by simp)
    · rw [if_neg hk, h.owners k j]
      by_cases hj : j = id
      · rw [if_pos hj, hj, hid]
        simp [Ne.symm hk]
      · rw [if_neg hj]
  index := h.index.insert id _
  follows := by
    intro j g hg
    have hrow := RowIndex.get?_rowOf_insert s.highlighter.index id f.initialScreen.start.row j
    simp only [FoldedEditor.register, Table.get?_insert] at hg
    split_ifs at hg with hj
    · -- the new folding is drawn and filed at the row where its marker stands
      rw [if_pos hj] at hrow
      have hfg : f = g := Option.some.inj hg
      rw [← hfg]
      refine ⟨f.initialScreen, htracks, hlabel, hdrawn, Or.inl ?_⟩
      exact ⟨isTranslationOf_self _, hshown, hrow⟩
    · rw [if_neg hj] at hrow
      obtain ⟨known, hfol⟩ := h.follows j g hg
      exact ⟨known, hfol.frame (Editor.Spares.refl _ _) rfl hrow⟩

/-- Drawing at a marker that belongs to no folding. -/
lemma Tracked.redraw (h : s.Tracked drained) {e : Editor} {k : MarkerId}
    (hr : s.editor.Redraws e k) (ht : e.Tidy) (hk : s.owners.get? k = none) :
    ({ s with editor := e } : FoldedEditor).Tracked drained where
  tidy := ht
  owners := h.owners
  index := h.index
  follows := by
    intro id f hf
    obtain ⟨known, hfol⟩ := h.follows id f hf
    have hne : f.marker ≠ k := by
      rintro rfl
      rw [h.owner hf] at hk
      exact absurd hk (by simp)
    exact ⟨known, hfol.frame (hr.spares hne) rfl rfl⟩

/-- A folding whose parts are in place is adopted when nothing is queued. -/
lemma Tracked.adopt (h : s.Tracked []) (hq : s.Quiet) (hid : s.live.get? request.id = none)
    {k : MarkerId} (hk : s.owners.get? k = none) {m : Marker}
    (hm : s.editor.markers.get? k = some m) (hv : m.valid = true) {label : Label}
    (hlabel : label.marker = k) (hdrawn : label.DrawnIn s.editor)
    (hshown : label.isHidden = false) (folds : PartialFold) :
    (s.adopt request k folds label).2.Tracked [] ∧ (s.adopt request k folds label).2.Quiet := by
  unfold FoldedEditor.adopt
  dsimp only
  generalize (s.editor.markerRange? k).any _ = underCursor
  obtain ⟨hredraw, hdrawn', htidy, hlabel', hshown', -⟩ :=
    Label.styled_spec hdrawn h.tidy underCursor
  rw [hlabel] at hredraw hlabel'
  rw [hshown] at hshown'
  have hextent : s.editor.Tracks k ((s.editor.markerScreenRange? k).getD
      (s.editor.screenRange request.range)) := by
    refine ⟨m, hm, ?_⟩
    unfold Editor.Accounts Editor.pending?
    rw [hq.1]
    simp [hv, Editor.markerScreenRange?, Editor.markerRange?, hm]
  refine ⟨?_, ?_⟩
  · exact (h.redraw hredraw htidy hk).register hid hk hlabel' hdrawn' hshown'
      (hredraw.tracks hextent)
  · exact ⟨hredraw.markerChanges.trans hq.1, hredraw.cursorMoves.trans hq.2⟩

/-- Making a folding keeps all foldings in step and leaves nothing queued. -/
theorem Tracked.createFolding (h : s.Tracked []) (hid : s.live.get? request.id = none)
    (hc : s.createFolding request = .ok (info, s')) : s'.Tracked [] ∧ s'.Quiet := by
  obtain ⟨-, hadopt⟩ := createFolding_ok hc
  have hprocess := h.process
  have hinstalled : (s.installed request).Tracked [] := hprocess.install request
  obtain ⟨hmarker, hdrawn, hlabel, hshown, -⟩ := hprocess.install_spec request
  have hframe := hinstalled.frame_process
  have hk : (s.installed request).owners.get? s.process.editor.nextId = none :=
    hprocess.owners_nextId
  have hresult := hinstalled.process.adopt (quiet_process _)
    (hframe.fresh _ (h.frame_process.fresh _ hid)) (hframe.owners _ hk)
    ((hframe.markers _ hk).trans hmarker) rfl hlabel
    (hdrawn.congr fun d x hx => hframe.decorations _ hk d x (hx.trans hlabel)) hshown
    (s.process.editor.install request).1
  rw [hadopt] at hresult
  exact hresult

/-! ## Batches -/

variable {results : List FoldResult} {requests : List FoldRequest} {maxLineLength : Option Nat}

/-- A request is refused, and nothing changes, or it is not empty and a folding is made. -/
lemma foldOne_ok {result : FoldResult} (h : s.foldOne maxLineLength request = .ok (result, s')) :
    result.isFolded = false ∧ s' = s ∨
      result.isFolded = true ∧ s.live.get? request.id = none ∧ 0 < request.preview.length ∧
        ∃ info, s.createFolding request = .ok (info, s') := by
  unfold FoldedEditor.foldOne at h
  split at h
  · left
    obtain ⟨hresult, hstate⟩ := Prod.mk.inj (Except.ok.inj h)
    exact ⟨hresult ▸ rfl, hstate.symm⟩
  · rename_i hlive
    have hnone : s.live.get? request.id = none := by
      simpa [Table.contains] using hlive
    simp only [bind, Except.bind] at h
    split at h
    · simp at h
    · rename_i check hcheck
      split at h
      · rename_i hstatus
        right
        refine ⟨?_, hnone, ?_, ?_⟩
        · split at h
          · simp at h
          · rw [← (Prod.mk.inj (Except.ok.inj h)).1, FoldResult.isFolded, hstatus]
            rfl
        · -- an empty preview does not pass the check
          by_contra hzero
          have hwidth : request.preview.length = 0 := by omega
          unfold PartialFold.check at hcheck
          rw [if_pos hwidth] at hcheck
          rw [← Except.ok.inj hcheck] at hstatus
          exact absurd hstatus (by decide)
        · split at h
          · simp at h
          · rename_i made hmade
            refine ⟨made.1, ?_⟩
            rw [hmade, ← (Prod.mk.inj (Except.ok.inj h)).2]
      · rename_i hstatus
        left
        obtain ⟨hresult, hstate⟩ := Prod.mk.inj (Except.ok.inj h)
        refine ⟨?_, hstate.symm⟩
        rw [← hresult, FoldResult.isFolded, beq_eq_false_iff_ne]
        exact hstatus

/-- What holds of the requests that are left and of the number of foldings made is carried through a
batch by the foldings made. -/
theorem foldEach_counts {P : List FoldRequest → Nat → FoldedEditor → Prop}
    (hskip : ∀ request rest n t, P (request :: rest) n t → P rest n t)
    (hmake : ∀ request rest n t t' info, P (request :: rest) n t →
      t.live.get? request.id = none → 0 < request.preview.length →
        t.createFolding request = .ok (info, t') → P rest (n + 1) t')
    (h : s.foldEach maxLineLength requests = .ok (results, s')) {n : Nat} (hs : P requests n s) :
    P [] (n + results.countP (·.isFolded)) s' := by
  induction requests generalizing s results n with
  | nil =>
    unfold FoldedEditor.foldEach at h
    obtain ⟨hresults, hstate⟩ := Prod.mk.inj (Except.ok.inj h)
    rw [← hresults, ← hstate]
    exact hs
  | cons request rest ih =>
    unfold FoldedEditor.foldEach at h
    simp only [bind, Except.bind] at h
    split at h
    · simp at h
    · rename_i one hone
      split at h
      · simp at h
      · rename_i others hothers
        obtain ⟨results', t⟩ := others
        obtain ⟨rfl, rfl⟩ := Prod.mk.inj (Except.ok.inj h)
        rcases foldOne_ok hone with ⟨hfolded, heq⟩ | ⟨hfolded, hlive, hpos, info, hcreate⟩
        · rw [List.countP_cons_of_neg (by simp [hfolded])]
          apply ih hothers
          rw [heq]
          exact hskip request rest n s hs
        · rw [List.countP_cons_of_pos hfolded, Nat.add_comm _ 1, ← Nat.add_assoc]
          exact ih hothers (hmake request rest n s one.2 info hs hlive hpos hcreate)

/-- What holds of the requests that are left is carried through a batch by the foldings made. -/
theorem foldEach_induction {P : List FoldRequest → FoldedEditor → Prop}
    (hskip : ∀ request rest t, P (request :: rest) t → P rest t)
    (hmake : ∀ request rest t t' info, P (request :: rest) t → t.live.get? request.id = none →
      0 < request.preview.length → t.createFolding request = .ok (info, t') → P rest t')
    (h : s.foldEach maxLineLength requests = .ok (results, s')) (hs : P requests s) : P [] s' :=
  foldEach_counts (P := fun left _ t => P left t) (n := 0) (fun request rest _ => hskip request rest)
    (fun request rest _ => hmake request rest) h hs

/-- The state in which the requests of a batch are served. -/
def batchStart (s : FoldedEditor) : FoldedEditor :=
  { s.process with
    highlighter := s.process.highlighter.suspend.2
    editor := s.process.editor.setAtomicSoftTabs false }

/-- A batch that is served goes through its requests, and then restores the settings. -/
lemma foldAll_ok (h : s.foldAll requests = .ok (results, s')) :
    ∃ maxLineLength t, s.batchStart.foldEach maxLineLength requests = .ok (results, t) ∧
      s' = { t with
        highlighter := t.highlighter.resume s.process.highlighter.suspend.1
        editor := t.editor.setAtomicSoftTabs s.process.editor.settings.atomicSoftTabs } := by
  unfold FoldedEditor.foldAll at h
  split at h
  · simp at h
  · rename_i maxLineLength _
    dsimp only at h
    split at h
    · simp at h
    · rename_i results' t heach
      have hpair := Prod.mk.inj (Except.ok.inj h)
      rw [hpair.1] at heach
      exact ⟨maxLineLength, t, heach, hpair.2.symm⟩

/-- Whether moves of the cursor are heeded and the settings are no matter. -/
lemma Tracked.configure (h : s.Tracked []) (settings : Settings) (enabled : Bool) :
    ({ s with
      highlighter := { s.highlighter with enabled }
      editor := { s.editor with settings } } : FoldedEditor).Tracked [] := by
  have hhost := h.host (.configure settings) trivial
  refine ⟨hhost.tidy, hhost.owners, hhost.index, fun id f hf => ?_⟩
  obtain ⟨known, hfol⟩ := hhost.follows id f hf
  exact ⟨known, hfol.tracks, hfol.label, hfol.drawn, hfol.looks⟩

/-- Serving a batch keeps all foldings in step and leaves nothing queued. -/
theorem Tracked.foldAll (h : s.Tracked []) (hc : s.foldAll requests = .ok (results, s')) :
    s'.Tracked [] ∧ s'.Quiet := by
  obtain ⟨maxLineLength, t, heach, rfl⟩ := foldAll_ok hc
  have hstart : s.batchStart.Tracked [] ∧ s.batchStart.Quiet :=
    ⟨h.process.configure _ _, quiet_process _⟩
  have hend : t.Tracked [] ∧ t.Quiet := by
    refine foldEach_induction (P := fun _ t => t.Tracked [] ∧ t.Quiet) ?_ ?_ heach hstart
    · exact fun _ _ _ ht => ht
    · intro request rest t t' info ht hlive _ hcreate
      exact ht.1.createFolding hlive hcreate
  exact ⟨hend.1.configure _ _, hend.2⟩

/-! ## Taking all foldings down -/

/-- Taking down the folding of a number, if there is one, is a step. -/
lemma Tracked.destroyFolding_step (h : s.Tracked []) (id : FoldingId) :
    (s.destroyFolding id).Tracked [] ∧ s.Step (s.destroyFolding id) := by
  cases hf : s.live.get? id with
  | none =>
    unfold FoldedEditor.destroyFolding
    rw [hf]
    exact ⟨h, .idle⟩
  | some f => exact ⟨h.destroyFolding hf fun _ _ => rfl, h.step_destroyFolding hf⟩

/-- Taking down one folding after the other leaves the rest tracked. -/
lemma Tracked.destroyFoldings (h : s.Tracked []) (ids : List FoldingId) :
    (ids.foldl FoldedEditor.destroyFolding s).Tracked [] := by
  induction ids generalizing s with
  | nil => exact h
  | cons id ids ih => exact ih (h.destroyFolding_step id).1

lemma Tracked.cleared (h : s.Tracked []) : s.cleared.Tracked [] := by
  have htracked := h.destroyFoldings s.live.keys
  refine ⟨htracked.tidy, htracked.owners, RowIndex.consistent_empty, ?_⟩
  intro j f hf
  rw [s.live_cleared j] at hf
  exact absurd hf (by simp)

lemma Tracked.unfoldAll (h : s.Tracked []) : s.unfoldAll.Tracked [] ∧ s.unfoldAll.Quiet :=
  ⟨h.cleared.process, quiet_process _⟩

/-! ## Runs of the host and the foldings -/

/-- The state after a batch. One that is not served changes nothing. -/
def afterBatch (s : FoldedEditor) (requests : List FoldRequest) : FoldedEditor :=
  match s.foldAll requests with
  | .ok (_, s') => s'
  | .error _ => s

/-- The states that the host and the foldings lead to, taking turns in any order. The last two
kinds of turns are those within a batch. -/
inductive Reached : FoldedEditor → Prop where
  | start (text : Text) (settings : Settings) : Reached { editor := { text, settings } }
  | host {s : FoldedEditor} {call : EditorCall} :
      Reached s → s.Permits call → Reached (s.host fun e => call.run e)
  | process {s : FoldedEditor} : Reached s → Reached s.process
  | unfoldAll {s : FoldedEditor} : Reached s → Reached s.unfoldAll
  | foldAll {s : FoldedEditor} {requests : List FoldRequest} :
      Reached s → Reached (s.afterBatch requests)
  | batchStart {s : FoldedEditor} : Reached s → Reached s.batchStart
  | createFolding {s s' : FoldedEditor} {request : FoldRequest} {info : FoldingInfo} :
      Reached s → s.live.get? request.id = none →
        s.createFolding request = .ok (info, s') → Reached s'

/-- In every state that the host and the foldings lead to, the foldings are tracked. -/
theorem Reached.tracked (h : s.Reached) : s.Tracked [] := by
  induction h with
  | start text settings =>
    refine ⟨Editor.tidy_new text settings, fun k id => ?_, RowIndex.consistent_empty, ?_⟩
    · simp
    · intro id f hf
      exact absurd hf (by simp)
  | host _ hp ih => exact ih.host _ hp
  | process _ ih => exact ih.process
  | unfoldAll _ ih => exact ih.unfoldAll.1
  | @foldAll s requests _ ih =>
    unfold afterBatch
    split
    · rename_i hc
      exact (ih.foldAll hc).1
    · exact ih
  | batchStart _ ih => exact ih.process.configure _ _
  | createFolding _ hid hc ih => exact (ih.createFolding hid hc).1

/-! ## The two conditions of a folding -/

/-- A folding is drawn at an extent of the shape it was given, and the row index has it on the row
where the extent starts and on no other. -/
def Visible (s : FoldedEditor) (id : FoldingId) (f : Folding) (extent : Range) : Prop :=
  f.initialScreen.isTranslationOf extent = true ∧
    (∃ d, f.label.decoration = some d ∧
      s.editor.decorations.get? d = some ⟨f.marker, f.label.overlay⟩) ∧
    ∀ row, id ∈ s.highlighter.index.onRow row ↔ row = extent.start.row

/-- A folding is collapsed to a point, nothing is drawn at its marker, no row of the index has it,
and it is not highlighted. -/
def Collapsed (s : FoldedEditor) (id : FoldingId) (f : Folding) (extent : Range) : Prop :=
  extent.isPoint = true ∧
    (f.label.decoration = none ∧
      ∀ d x, s.editor.decorations.get? d = some x → x.marker ≠ f.marker) ∧
    (∀ row, id ∉ s.highlighter.index.onRow row) ∧ f.info.highlighted = false

/-- A folding has a valid marker and is visible or collapsed at its present extent. -/
def Settled (s : FoldedEditor) (id : FoldingId) (f : Folding) : Prop :=
  ∃ m, s.editor.markers.get? f.marker = some m ∧ m.valid = true ∧
    (s.Visible id f (s.editor.screenRange m.range) ∨
      s.Collapsed id f (s.editor.screenRange m.range))

/-- When nothing is queued, what was known of a folding is its present condition. -/
lemma Tracked.settled (h : s.Tracked []) (hq : s.Quiet) (hf : s.live.get? id = some f) :
    s.Settled id f := by
  obtain ⟨known, hfol⟩ := h.follows id f hf
  obtain ⟨m, hm, hacc⟩ := hfol.tracks
  unfold Editor.Accounts Editor.pending? at hacc
  rw [hq.1] at hacc
  -- with no notification pending, the extent last seen is the present one
  obtain ⟨hvalid, hextent⟩ : m.valid = true ∧ s.editor.screenRange m.range = known := hacc
  refine ⟨m, hm, hvalid, ?_⟩
  rw [hextent]
  rcases hfol.looks with ⟨htranslation, hshown, hrow⟩ | ⟨-, hpoint, hhidden, hrow, hhighlight⟩
  · left
    refine ⟨htranslation, ?_, fun row => ?_⟩
    · cases hd : f.label.decoration with
      | none => simp [Label.isHidden, hd] at hshown
      | some d =>
        refine ⟨d, rfl, ?_⟩
        rw [← hfol.label]
        exact hfol.drawn.get? hd
    · rw [h.index id row, hrow, Option.some.injEq, eq_comm]
  · right
    have hnone : f.label.decoration = none := by simpa [Label.isHidden] using hhidden
    refine ⟨hpoint, ⟨hnone, ?_⟩, fun row hmem => ?_, hhighlight⟩
    · intro d x hx hmarker
      have hdrawn := ((hfol.drawn d x).1 ⟨hx, hmarker.trans hfol.label.symm⟩).1
      rw [hnone] at hdrawn
      exact absurd hdrawn (by simp)
    · rw [h.index id row, hrow] at hmem
      exact absurd hmem (by simp)

/-- **Visibility.** After notifications have been applied none is queued, and every folding whose
first extent was not a point has a valid marker and is either visible or collapsed. -/
theorem Reached.settled_process (h : s.Reached) :
    s.process.editor.hasPending = false ∧
      ∀ id f, s.process.live.get? id = some f → f.initialScreen.isPoint = false →
        s.process.Settled id f := by
  refine ⟨hasPending_eq_false_iff.2 (quiet_process _), ?_⟩
  intro id f hf _
  exact h.tracked.process.settled (quiet_process _) hf

/-- A folding over two lines that the host has collapsed by a fold around it. -/
theorem settled_process_collapsed :
    let s := (({ editor := { text := "xab\ncdy".toList } } : FoldedEditor).afterBatch
      [⟨1, ⟨⟨0, 1⟩, ⟨1, 2⟩⟩, ['p', 'q']⟩]).host fun e => EditorCall.run e (.fold ⟨⟨0, 0⟩, ⟨1, 3⟩⟩)
    s.Reached ∧ ∃ f, s.process.live.get? 1 = some f ∧ f.initialScreen.isPoint = false ∧
      f.label.isHidden = true ∧ s.process.Settled 1 f := by
  intro s
  have hreached : s.Reached := .host (.foldAll (.start _ _)) trivial
  exact ⟨hreached, _, rfl, by decide, by decide,
    hreached.settled_process.2 1 _ rfl (by decide)⟩

end FoldedEditor

end TemplateFolding
