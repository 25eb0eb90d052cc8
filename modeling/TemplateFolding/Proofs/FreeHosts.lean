import TemplateFolding.Proofs.FoldReports

/-!
# Hosts that do as they please

Nothing keeps a host from asking for what it should leave to the foldings: it can destroy their
markers, draw over them, or take their notifications out of the queues. The tables of the foldings
agree with each other all the same, because the editor has no access to them. In particular no
marker has an owner when there are no foldings, and what is queued then says nothing to anyone.
-/

namespace TemplateFolding

namespace Label

variable {e : Editor}

/-- Styling a label leaves the editor in order, wherever its decoration hangs. -/
lemma kept_setStyle (l : Label) (h : e.Kept) (style : LabelStyle) :
    (l.setStyle e style).2.Kept := by
  unfold Label.setStyle
  dsimp only
  split
  · exact h.run (.setStyle _ _)
  · exact h

lemma kept_draw (l : Label) (h : e.Kept) : (l.draw e).2.Kept := by
  unfold Label.draw
  split
  · exact h
  · exact h.run (.decorate _ _)

lemma kept_styled (l : Label) (h : e.Kept) (underCursor : Bool) :
    (l.styled e underCursor).2.Kept := by
  unfold Label.styled
  split_ifs
  · exact l.kept_setStyle h _
  · exact h

lemma marker_styled (l : Label) (e : Editor) (underCursor : Bool) :
    (l.styled e underCursor).1.marker = l.marker := by
  unfold Label.styled
  split_ifs <;> rfl

end Label

/-- The marker of a new folding takes a number. -/
lemma Editor.nextId_lt_install (e : Editor) (request : FoldRequest) :
    e.nextId < (e.install request).2.2.nextId := by
  have hfolds := (PartialFold.foldEach_frame
    (PartialFold.pieces e.text (e.clipRange request.range) request.preview.length)
    (e.createMarker request.range).2).2.2.2
  exact Nat.lt_of_lt_of_le (Nat.lt_succ_self _) (Nat.le_trans hfolds (Label.onlyDraws_draw _ _).nextId_le)

lemma Editor.kept_install (e : Editor) (h : e.Kept) (request : FoldRequest) :
    (e.install request).2.2.Kept := by
  have hfolds : ∀ (ranges : List Range) (e : Editor), e.Kept →
      (PartialFold.foldEach e ranges).2.Kept := by
    intro ranges
    induction ranges with
    | nil => exact fun _ h => h
    | cons r rest ih => exact fun e h => ih _ (h.fold r)
  exact Label.kept_draw _ (hfolds _ _ (h.createMarker request.range))

namespace FoldedEditor

variable {s s' : FoldedEditor} {n : Nat} {id : FoldingId} {f f' : Folding}
  {request : FoldRequest} {requests : List FoldRequest} {results : List FoldResult}
  {info : FoldingInfo}

/-- The states that any use of an editor and its foldings leads to. There is nothing that the host
may not ask of the editor. -/
inductive Used : FoldedEditor → Prop where
  | start (text : Text) (settings : Settings) : Used { editor := { text, settings } }
  | host {s : FoldedEditor} (call : EditorCall) : Used s → Used (s.host fun e => call.run e)
  | manage {s s' : FoldedEditor} : Used s → s.Managed s' → Used s'

/-- The tables of the foldings agree with each other, and all their markers have numbers
below `n`. -/
structure Listed (n : Nat) (s : FoldedEditor) : Prop extends Registered s nonePending where
  kept : s.editor.Kept
  below : n ≤ s.editor.nextId
  numbered : ∀ id f, s.live.get? id = some f → f.marker < n
  index : s.highlighter.index.Consistent

namespace Listed

/-- The next number has no owner yet. -/
lemma owners_eq_none (h : s.Listed n) : s.owners.get? n = none := by
  cases howner : s.owners.get? n with
  | none => rfl
  | some id =>
    obtain ⟨f, hf, hmarker⟩ := (h.owners n id).1 howner
    exact absurd hmarker (Nat.ne_of_lt (h.numbered id f hf))

/-- The bound may be raised as far as numbers have been handed out. -/
lemma atNextId (h : s.Listed n) : s.Listed s.editor.nextId :=
  { h with
    below := Nat.le_refl _
    numbered := fun id f hf => Nat.lt_of_lt_of_le (h.numbered id f hf) h.below }

/-- Only the editor and the row index change. -/
lemma aside (h : s.Listed n) (hkept : s'.editor.Kept)
    (hbelow : s.editor.nextId ≤ s'.editor.nextId) (hlive : s'.live = s.live)
    (howners : s'.owners = s.owners) (hretired : s'.retired = s.retired)
    (hindex : s'.highlighter.index.Consistent) : s'.Listed n where
  owners := by
    rw [hlive, howners]
    exact h.owners
  retired := by
    rw [hlive, hretired]
    exact h.retired
  label := by
    rw [hlive]
    exact h.label
  made := fun _ _ _ => rfl
  kept := hkept
  below := Nat.le_trans h.below hbelow
  numbered := by
    rw [hlive]
    exact h.numbered
  index := hindex

/-- A folding gives way to another one on its marker. -/
lemma relabel (h : s.Listed n) (hf : s.live.get? id = some f)
    (hlive : s'.live = s.live.insert id f') (hmarker : f'.marker = f.marker)
    (hlabel : f'.label.marker = f.label.marker) (howners : s'.owners = s.owners)
    (hretired : s'.retired = s.retired) (hkept : s'.editor.Kept)
    (hbelow : s.editor.nextId ≤ s'.editor.nextId)
    (hindex : s'.highlighter.index.Consistent) : s'.Listed n where
  toRegistered := h.toRegistered.relabel hf hlive hmarker hlabel howners hretired
  kept := hkept
  below := Nat.le_trans h.below hbelow
  numbered := by
    intro j g hg
    rw [hlive, Table.get?_insert] at hg
    split_ifs at hg with hj
    · rw [← Option.some.inj hg, hmarker]
      exact h.numbered id f hf
    · exact h.numbered j g hg
  index := hindex

lemma destroyFolding (h : s.Listed n) (id : FoldingId) : (s.destroyFolding id).Listed n := by
  unfold FoldedEditor.destroyFolding
  split
  · exact h
  · rename_i f hf
    refine ⟨h.toRegistered.erase hf rfl rfl rfl, ?_, ?_, fun j g hg => ?_, h.index.remove id⟩
    · exact (f.folds.kept_destroy (Label.kept_hide h.kept)).destroyMarker f.marker
    · show n ≤ (f.folds.destroy (f.label.hide s.editor).2).nextId
      rw [(Editor.destroyFolds_spec _ _).2.1, (f.label.hide_spec s.editor).2.2.2.1]
      exact h.below
    · rw [Table.get?_erase] at hg
      split_ifs at hg
      exact h.numbered j g hg

/-! ## Applying notifications -/

lemma emptied (h : s.Listed n) : s.emptied.Listed n :=
  h.aside (h.kept.run .drainMarkerChanges |>.run .drainCursorMoves) (Nat.le_refl _) rfl rfl rfl
    h.index

/-- Following a notification leaves the tables in agreement. -/
lemma onMarkerChange (h : s.Listed n) (c : MarkerChange) : (s.onMarkerChange c).Listed n := by
  refine onMarkerChange_elim s c ?_ ?_ ?_ ?_ ?_
  · exact fun _ => h
  · exact fun _ _ hc => h.relabel hc.live rfl rfl rfl rfl rfl h.kept (Nat.le_refl _)
      (h.index.insert _ _)
  · exact fun _ f hc => h.relabel hc.live rfl rfl (Label.marker_draw _ _) rfl rfl
      (f.label.kept_draw h.kept) (f.label.onlyDraws_draw _).nextId_le (h.index.insert _ _)
  · exact fun _ f hc => h.relabel hc.live rfl rfl (Label.marker_hide _ _) rfl rfl
      (Label.kept_hide (f.label.kept_setStyle h.kept _))
      (f.label.onlyDraws_setStyle_hide s.editor .normal).nextId_le (h.index.remove _)
  · exact fun id _ _ _ _ => h.destroyFolding id

lemma setHighlight (h : s.Listed n) (id : FoldingId) (on : Bool) :
    (s.setHighlight id on).Listed n := by
  refine setHighlight_elim s id on (fun _ => h) fun f hf _ => ?_
  exact h.relabel hf rfl rfl rfl rfl rfl (f.label.kept_setStyle h.kept _)
    (Label.onlyDraws_setStyle _ _ _).nextId_le h.index

lemma process (h : s.Listed n) : s.process.Listed n :=
  process_keeps (fun _ ht => ht.emptied) (fun _ c ht => ht.onMarkerChange c)
    (fun _ id on ht => ht.setHighlight id on) h

/-! ## Making foldings -/

/-- Putting a request in place does not touch the tables. -/
lemma install (h : s.Listed n) (request : FoldRequest) :
    ({ s with editor := (s.editor.install request).2.2 } : FoldedEditor).Listed n :=
  h.aside (s.editor.kept_install h.kept request) (s.editor.nextId_le_install request) rfl rfl rfl
    h.index

/-- A folding on the marker with the number `n` is adopted. -/
lemma adopt (h : s.Listed n) (hid : s.live.get? request.id = none) (hn : n < s.editor.nextId)
    (folds : PartialFold) {label : Label} (hlabel : label.marker = n) :
    (s.adopt request n folds label).2.Listed (n + 1) := by
  have hdraws := label.onlyDraws_styled s.editor
    ((s.editor.markerRange? n).any (·.contains s.editor.cursor))
  obtain ⟨decorations, m, hnext, hstyled⟩ := hdraws
  refine ⟨h.toRegistered.insert hid h.owners_eq_none ?_ rfl rfl rfl, ?_, ?_, fun j g hg => ?_,
    h.index.insert _ _⟩
  · exact (label.marker_styled _ _).trans hlabel
  · exact label.kept_styled h.kept _
  · show n + 1 ≤ (label.styled s.editor _).2.nextId
    rw [hstyled]
    exact Nat.le_trans hn hnext
  · have hg' : (s.live.insert request.id _).get? j = some g := hg
    rw [Table.get?_insert] at hg'
    split_ifs at hg' with hj
    · rw [← Option.some.inj hg']
      exact Nat.lt_succ_self n
    · exact Nat.lt_succ_of_lt (h.numbered j g hg')

/-- Making a folding enters it in all tables, under numbers that have been handed out. -/
lemma createFolding (h : s.Listed n) (hid : s.live.get? request.id = none)
    (hc : s.createFolding request = .ok (info, s')) : s'.Listed s'.editor.nextId := by
  obtain ⟨-, hadopt⟩ := createFolding_ok hc
  have hinstalled : (s.installed request).process.Listed s.process.editor.nextId :=
    (h.process.atNextId.install request).process
  have hlt : s.process.editor.nextId < (s.installed request).process.editor.nextId :=
    Nat.lt_of_lt_of_le (s.process.editor.nextId_lt_install request)
      ((s.installed request).process_leavesHost 0).nextId
  have hlabel : (s.process.editor.install request).2.1.marker = s.process.editor.nextId :=
    Label.marker_draw _ _
  have hnew := hinstalled.adopt (live_process (live_process hid)) hlt
    (s.process.editor.install request).1 hlabel
  rw [hadopt] at hnew
  exact hnew.atNextId

lemma configure (h : s.Listed n) (settings : Settings) (enabled : Bool) :
    ({ s with
      editor := { s.editor with settings }
      highlighter := { s.highlighter with enabled } } : FoldedEditor).Listed n :=
  h.aside (h.kept.run (.configure settings)) (Nat.le_refl _) rfl rfl rfl h.index

/-- A batch leaves the tables in agreement. -/
lemma afterBatch (h : s.Listed n) (requests : List FoldRequest) :
    (s.afterBatch requests).Listed (s.afterBatch requests).editor.nextId := by
  unfold FoldedEditor.afterBatch
  split
  · rename_i results s' hbatch
    obtain ⟨maxLineLength, t, heach, rfl⟩ := foldAll_ok hbatch
    have hstart : s.batchStart.Listed s.batchStart.editor.nextId :=
      (h.process.configure _ _).atNextId
    have hend : t.Listed t.editor.nextId :=
      foldEach_induction (P := fun _ t => t.Listed t.editor.nextId) (fun _ _ _ ht => ht)
        (fun _ _ _ _ _ ht hid _ hcreate => ht.createFolding hid hcreate) heach hstart
    exact hend.configure _ _
  · exact h.atNextId

lemma unfoldAll (h : s.Listed n) : s.unfoldAll.Listed n := by
  have hdown : (s.live.keys.foldl FoldedEditor.destroyFolding s).Listed n :=
    List.foldlRecOn _ _ h fun _ ht id _ => ht.destroyFolding id
  have hcleared : s.cleared.Listed n :=
    hdown.aside hdown.kept (Nat.le_refl _) rfl rfl rfl RowIndex.consistent_empty
  exact hcleared.process

end Listed

/-- However an editor and its foldings are used, the tables agree. -/
theorem Used.listed (h : s.Used) : s.Listed s.editor.nextId := by
  induction h with
  | start text settings =>
    have hnone : ∀ {α : Type} (k : Nat), (Table.empty : Table α).get? k = none := fun _ => rfl
    exact ⟨⟨fun k id => by simp [hnone], fun _ _ hf => absurd hf (by simp [hnone]),
      fun _ _ hf => absurd hf (by simp [hnone]), fun _ _ _ => rfl⟩, Editor.kept_new text settings,
      Nat.le_refl _, fun _ _ hf => absurd hf (by simp [hnone]), RowIndex.consistent_empty⟩
  | @host s call _ ih =>
    have hhost : (s.host fun e => call.run e).Listed s.editor.nextId :=
      ih.aside (ih.kept.run call) (s.editor.nextId_le_run call) rfl rfl rfl ih.index
    exact hhost.atNextId
  | manage _ hm ih =>
    cases hm with
    | process => exact ih.process.atNextId
    | foldAll requests => exact ih.afterBatch requests
    | destroyFolding id => exact (ih.destroyFolding id).atNextId
    | unfoldAll => exact ih.unfoldAll.atNextId

/-- Without foldings nothing has to be followed. Only the decorations have to hang on numbers that
have been handed out. -/
theorem Used.tracked_of_none (h : s.Used) (hnone : ∀ id, s.live.get? id = none)
    (hd : ∀ d x, s.editor.decorations.get? d = some x → x.marker < s.editor.nextId) :
    s.Tracked [] where
  tidy := ⟨h.listed.kept, hd⟩
  owners := h.listed.owners
  index := h.listed.index
  follows := fun id f hf => absurd hf (by simp [hnone])

/-- Where nothing is drawn, no decoration can be in the way. -/
theorem Used.tracked_undrawn (h : s.Used) (hnone : ∀ id, s.live.get? id = none) :
    s.undrawn.Tracked [] :=
  ⟨Editor.tidy_undrawn h.listed.kept, h.listed.owners, h.listed.index,
    fun id f hf => absurd hf (by simp [undrawn, hnone])⟩

end FoldedEditor

end TemplateFolding
