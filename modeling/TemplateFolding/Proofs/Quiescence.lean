import TemplateFolding.Proofs.FreshFoldings

/-!
# What is the host's comes through

Applying notifications, taking foldings down and making new ones leave the text, the cursor and all
that belongs to no folding as they were, and in the end nothing is queued. As with the loop itself,
none of this depends on how the state came about.
-/

namespace TemplateFolding

namespace FoldedEditor

variable {s s' s'' : FoldedEditor} {id : FoldingId} {f f' : Folding} {e : Editor} {n : Nat}

/-! ## What is the host's -/

/-- A fold that a folding has made. -/
def OwnsFold (s : FoldedEditor) (k : FoldId) : Prop :=
  ∃ id f, s.live.get? id = some f ∧ k ∈ f.folds.folds

/-- A marker that a folding stands on. -/
def OwnsMarker (s : FoldedEditor) (k : MarkerId) : Prop :=
  ∃ id f, s.live.get? id = some f ∧ f.marker = k

/-- The text and the cursor are as before, and no number has been given back. Of the numbers below
`n`, every fold and marker that belongs to no folding is as before, and it still belongs to none. -/
structure LeavesHost (n : Nat) (s s' : FoldedEditor) : Prop where
  text : s'.editor.text = s.editor.text
  cursor : s'.editor.cursor = s.editor.cursor
  nextId : s.editor.nextId ≤ s'.editor.nextId
  folds : ∀ k < n, ¬s.OwnsFold k →
    s'.editor.folds.get? k = s.editor.folds.get? k ∧ ¬s'.OwnsFold k
  markers : ∀ k < n, ¬s.OwnsMarker k →
    s'.editor.markers.get? k = s.editor.markers.get? k ∧ ¬s'.OwnsMarker k

namespace LeavesHost

lemma refl (n : Nat) (s : FoldedEditor) : s.LeavesHost n s :=
  ⟨rfl, rfl, Nat.le_refl _, fun _ _ h => ⟨rfl, h⟩, fun _ _ h => ⟨rfl, h⟩⟩

lemma trans (h : s.LeavesHost n s') (h' : s'.LeavesHost n s'') : s.LeavesHost n s'' where
  text := h'.text.trans h.text
  cursor := h'.cursor.trans h.cursor
  nextId := Nat.le_trans h.nextId h'.nextId
  folds := by
    intro k hk hfree
    obtain ⟨heq, hfree'⟩ := h.folds k hk hfree
    obtain ⟨heq', hfree''⟩ := h'.folds k hk hfree'
    exact ⟨heq'.trans heq, hfree''⟩
  markers := by
    intro k hk hfree
    obtain ⟨heq, hfree'⟩ := h.markers k hk hfree
    obtain ⟨heq', hfree''⟩ := h'.markers k hk hfree'
    exact ⟨heq'.trans heq, hfree''⟩

end LeavesHost

/-! ## One notification -/

/-- A folding is replaced by one with the same marker and folds, and what is drawn changes. -/
lemma relabel_leavesHost (hf : s.live.get? id = some f)
    (hlive : ∃ f', s'.live = s.live.insert id f' ∧ f'.marker = f.marker ∧ f'.folds = f.folds)
    (hdraws : s.editor.OnlyDraws s'.editor) : s.LeavesHost n s' := by
  obtain ⟨f', hlive, hparts⟩ := hlive
  obtain ⟨d, m, hnext, heditor⟩ := hdraws
  -- each folding has the marker and the folds that it had before
  have hback : ∀ j g', s'.live.get? j = some g' → ∃ g, s.live.get? j = some g ∧
      g'.marker = g.marker ∧ g'.folds = g.folds := by
    intro j g' hg'
    rw [hlive, Table.get?_insert] at hg'
    split at hg'
    · rename_i hj
      obtain rfl := Option.some.inj hg'
      exact ⟨f, hj ▸ hf, hparts⟩
    · exact ⟨g', hg', rfl, rfl⟩
  refine ⟨by rw [heditor], by rw [heditor], by rw [heditor]; exact hnext,
    fun k _ hfree => ⟨by rw [heditor], ?_⟩, fun k _ hfree => ⟨by rw [heditor], ?_⟩⟩
  · rintro ⟨j, g', hg', hk⟩
    obtain ⟨g, hg, -, hfolds'⟩ := hback j g' hg'
    exact hfree ⟨j, g, hg, hfolds' ▸ hk⟩
  · rintro ⟨j, g', hg', rfl⟩
    obtain ⟨g, hg, hmarker', -⟩ := hback j g' hg'
    exact hfree ⟨j, g, hg, hmarker'.symm⟩

/-- Taking a folding down leaves alone what is the host's. -/
lemma destroyFolding_leavesHost (s : FoldedEditor) (id : FoldingId) (n : Nat) :
    s.LeavesHost n (s.destroyFolding id) := by
  unfold FoldedEditor.destroyFolding
  split
  · exact .refl n s
  · rename_i f hf
    obtain ⟨d, m, hlabelNext, hlabel⟩ := f.label.onlyDraws_destroy s.editor
    rw [hlabel]
    obtain ⟨htext, hnext, -, hfolds⟩ :=
      Editor.destroyFolds_spec f.folds { s.editor with decorations := d, nextId := m }
    have hcursor := (f.folds.destroy_still { s.editor with decorations := d, nextId := m }).1
    have hmarkers := markers_destroyFolds f.folds { s.editor with decorations := d, nextId := m }
    have hback : ∀ {j : FoldingId} {g : Folding}, (s.live.erase id).get? j = some g →
        s.live.get? j = some g := fun hg => Table.get?_of_get?_filter hg
    refine ⟨htext, hcursor, hnext ▸ hlabelNext, fun k _ hfree => ⟨?_, ?_⟩, fun k _ hfree => ⟨?_, ?_⟩⟩
    · exact (hfolds k).trans (if_neg fun hk => hfree ⟨id, f, hf, hk⟩)
    · rintro ⟨j, g, hg, hk⟩
      exact hfree ⟨j, g, hback hg, hk⟩
    · refine (Table.get?_erase_of_ne _ fun heq => hfree ⟨id, f, hf, heq.symm⟩).trans ?_
      rw [hmarkers]
    · rintro ⟨j, g, hg, hk⟩
      exact hfree ⟨j, g, hback hg, hk⟩

lemma onMarkerChange_leavesHost (s : FoldedEditor) (c : MarkerChange) (n : Nat) :
    s.LeavesHost n (s.onMarkerChange c) := by
  refine onMarkerChange_elim s c ?_ ?_ ?_ ?_ ?_
  · exact fun _ => .refl n s
  · exact fun _ _ hc => relabel_leavesHost hc.live ⟨_, rfl, rfl, rfl⟩ (.refl _)
  · exact fun _ f hc => relabel_leavesHost hc.live ⟨_, rfl, rfl, rfl⟩ (f.label.onlyDraws_draw _)
  · exact fun _ f hc => relabel_leavesHost hc.live ⟨_, rfl, rfl, rfl⟩
      (f.label.onlyDraws_setStyle_hide _ _)
  · exact fun id _ _ _ _ => s.destroyFolding_leavesHost id n

lemma setHighlight_leavesHost (s : FoldedEditor) (id : FoldingId) (on : Bool) (n : Nat) :
    s.LeavesHost n (s.setHighlight id on) := by
  refine setHighlight_elim s id on (fun _ => .refl n s) fun f hf _ => ?_
  exact relabel_leavesHost hf ⟨_, rfl, rfl, rfl⟩ (f.label.onlyDraws_setStyle _ _)

/-! ## Rounds -/

/-- Processing leaves alone what is the host's. -/
lemma process_leavesHost (s : FoldedEditor) (n : Nat) : s.LeavesHost n s.process :=
  process_keeps (P := s.LeavesHost n)
    (fun _ h => ⟨h.text, h.cursor, h.nextId, h.folds, h.markers⟩)
    (fun t c h => h.trans (t.onMarkerChange_leavesHost c n))
    (fun t id on h => h.trans (t.setHighlight_leavesHost id on n)) (.refl n s)

lemma unfoldAll_leavesHost (s : FoldedEditor) (n : Nat) : s.LeavesHost n s.unfoldAll := by
  have hcleared : s.LeavesHost n s.cleared := by
    have hdown : s.LeavesHost n (s.live.keys.foldl destroyFolding s) :=
      List.foldlRecOn _ _ (.refl n s) fun t ht id _ =>
        ht.trans (t.destroyFolding_leavesHost id n)
    exact ⟨hdown.text, hdown.cursor, hdown.nextId, hdown.folds, hdown.markers⟩
  exact hcleared.trans (s.cleared.process_leavesHost n)

/-! ## Making foldings -/

/-- New folds have new numbers, and the folds with old ones stay. -/
lemma foldEach_numbers (ranges : List Range) (e : Editor) :
    (∀ k ∈ (PartialFold.foldEach e ranges).1,
      e.nextId ≤ k ∧ k < (PartialFold.foldEach e ranges).2.nextId) ∧
      ∀ k < e.nextId, (PartialFold.foldEach e ranges).2.folds.get? k = e.folds.get? k := by
  induction ranges generalizing e with
  | nil => exact ⟨by simp [PartialFold.foldEach], fun _ _ => rfl⟩
  | cons r ranges ih =>
    obtain ⟨hnew, hold⟩ := ih (e.fold r).2
    have hnext : (e.fold r).2.nextId = e.nextId + 1 := rfl
    have hmono := (PartialFold.foldEach_frame ranges (e.fold r).2).2.2.2
    rw [hnext] at hnew hold hmono
    constructor
    · intro k hk
      rcases List.mem_cons.1 hk with rfl | hk
      · exact ⟨Nat.le_refl _, hmono⟩
      · obtain ⟨hlow, hhigh⟩ := hnew k hk
        exact ⟨Nat.le_of_succ_le hlow, hhigh⟩
    · intro k hk
      refine (hold k (Nat.lt_succ_of_lt hk)).trans ?_
      exact Table.get?_insert_of_ne _ _ (Nat.ne_of_lt hk)

/-- What putting the parts of a new folding in place does, whatever the request. -/
lemma install_numbers (e : Editor) (request : FoldRequest) :
    (e.install request).2.2.text = e.text ∧
      (e.install request).2.2.markers =
        e.markers.insert e.nextId ⟨e.clipRange request.range, true⟩ ∧
      (∀ k ∈ (e.install request).1.folds, e.nextId < k ∧ k < (e.install request).2.2.nextId) ∧
      ∀ k ≤ e.nextId, (e.install request).2.2.folds.get? k = e.folds.get? k := by
  obtain ⟨hnew, hold⟩ := foldEach_numbers
    (PartialFold.pieces e.text (e.clipRange request.range) request.preview.length)
    (e.createMarker request.range).2
  obtain ⟨htext, hmarkers, -, -⟩ := PartialFold.foldEach_frame
    (PartialFold.pieces e.text (e.clipRange request.range) request.preview.length)
    (e.createMarker request.range).2
  unfold Editor.install
  dsimp only
  generalize PartialFold.foldEach (e.createMarker request.range).2 _ = folded at *
  refine ⟨htext, hmarkers, fun k hk => ?_, fun k hk => hold k (Nat.lt_succ_of_le hk)⟩
  obtain ⟨hlow, hhigh⟩ := hnew k hk
  exact ⟨hlow, Nat.lt_succ_of_lt hhigh⟩

lemma install_leavesHost (s : FoldedEditor) (request : FoldRequest) (hn : n ≤ s.editor.nextId) :
    s.LeavesHost n { s with editor := (s.editor.install request).2.2 } ∧
      ∀ k ∈ (s.editor.install request).1.folds, n ≤ k := by
  obtain ⟨htext, hmarkers, hnew, hold⟩ := install_numbers s.editor request
  refine ⟨⟨htext, (Editor.install_still _ _).1, Editor.nextId_le_install _ _, ?_, ?_⟩, ?_⟩
  · intro k hk hfree
    exact ⟨hold k (by omega), hfree⟩
  · intro k hk hfree
    refine ⟨(congrArg (·.get? k) hmarkers).trans ?_, hfree⟩
    exact Table.get?_insert_of_ne _ _ (by omega)
  · intro k hk
    have := (hnew k hk).1
    omega

/-- Taking a new folding in leaves alone what is the host's, if its marker and its folds are new. -/
lemma adopt_leavesHost (s : FoldedEditor) (request : FoldRequest) (label : Label)
    {marker : MarkerId} {folds : PartialFold} (hmarker : n ≤ marker) (hfolds : ∀ k ∈ folds.folds, n ≤ k) :
    s.LeavesHost n (s.adopt request marker folds label).2 ∧
      (s.Quiet → (s.adopt request marker folds label).2.Quiet) := by
  obtain ⟨d, m, hnext, hstyled⟩ := label.onlyDraws_styled s.editor
    ((s.editor.markerRange? marker).any (·.contains s.editor.cursor))
  unfold FoldedEditor.adopt FoldedEditor.register
  dsimp only
  rw [hstyled]
  refine ⟨⟨rfl, rfl, hnext, fun k hk hfree => ⟨rfl, ?_⟩, fun k hk hfree => ⟨rfl, ?_⟩⟩, fun hq => hq⟩
  · rintro ⟨j, g, hg, hmem⟩
    rw [Table.get?_insert] at hg
    split at hg
    · obtain rfl := Option.some.inj hg
      have := hfolds k hmem
      omega
    · exact hfree ⟨j, g, hg, hmem⟩
  · rintro ⟨j, g, hg, hmem⟩
    rw [Table.get?_insert] at hg
    split at hg
    · obtain rfl := Option.some.inj hg
      have := le_of_le_of_eq hmarker hmem
      omega
    · exact hfree ⟨j, g, hg, hmem⟩

variable {request : FoldRequest} {requests : List FoldRequest} {info : FoldingInfo}
  {result : FoldResult} {results : List FoldResult} {maxLineLength : Option Nat}

/-- Whatever is queued before, and whatever the new folds cause, is applied by the end. -/
lemma createFolding_leavesHost (h : s.createFolding request = .ok (info, s'))
    (hn : n ≤ s.editor.nextId) : s.LeavesHost n s' ∧ s'.Quiet := by
  obtain ⟨-, hadopt⟩ := createFolding_ok h
  have hbefore := s.process_leavesHost n
  have hn' := Nat.le_trans hn hbefore.nextId
  obtain ⟨hinstall, hnew⟩ := s.process.install_leavesHost request hn'
  have hafter := (s.installed request).process_leavesHost n
  have hlast := (s.installed request).process.adopt_leavesHost request
    (s.process.editor.install request).2.1 hn' hnew
  rw [hadopt] at hlast
  exact ⟨((hbefore.trans hinstall).trans hafter).trans hlast.1, hlast.2 (quiet_process _)⟩

/-- Serving a request leaves alone what is the host's. -/
lemma foldOne_leavesHost (h : s.foldOne maxLineLength request = .ok (result, s'))
    (hn : n ≤ s.editor.nextId) :
    s.LeavesHost n s' ∧ (result.isFolded = true → s'.Quiet) := by
  rcases foldOne_ok h with ⟨hrefused, rfl⟩ | ⟨-, -, -, info, hcreate⟩
  · exact ⟨.refl n _, fun hfolded => absurd hfolded (by simp [hrefused])⟩
  · obtain ⟨hleaves, hquiet⟩ := createFolding_leavesHost hcreate hn
    exact ⟨hleaves, fun _ => hquiet⟩

/-- Serving a batch leaves alone what is the host's, and nothing is queued afterwards. -/
lemma foldAll_leavesHost (h : s.foldAll requests = .ok (results, s')) (hn : n ≤ s.editor.nextId) :
    s.LeavesHost n s' ∧ s'.Quiet := by
  obtain ⟨maxLineLength, t, heach, rfl⟩ := foldAll_ok h
  have hstart : s.LeavesHost n s.batchStart ∧ s.batchStart.Quiet := by
    have hprocess := s.process_leavesHost n
    exact ⟨⟨hprocess.text, hprocess.cursor, hprocess.nextId, hprocess.folds, hprocess.markers⟩,
      s.quiet_process⟩
  obtain ⟨hleaves, hquiet⟩ := foldEach_induction
    (P := fun _ t => s.LeavesHost n t ∧ t.Quiet) (fun _ _ _ ht => ht)
    (fun request rest t t' info ht _ _ hcreate => by
      obtain ⟨hleaves, hquiet⟩ := createFolding_leavesHost hcreate (hn.trans ht.1.nextId)
      exact ⟨ht.1.trans hleaves, hquiet⟩) heach hstart
  exact ⟨⟨hleaves.text, hleaves.cursor, hleaves.nextId, hleaves.folds, hleaves.markers⟩, hquiet⟩

/-- A batch that is served leads to the state after it. -/
lemma foldAll_afterBatch (h : (s.foldAll requests).isOk = true) :
    ∃ results, s.foldAll requests = .ok (results, s.afterBatch requests) := by
  unfold afterBatch
  cases hbatch : s.foldAll requests with
  | error fault =>
    rw [hbatch] at h
    exact absurd h (by simp [Except.isOk, Except.toBool])
  | ok served => exact ⟨served.1, rfl⟩

/-! ## Quiescence -/

/-- **Quiescence.** In every state, applying what is queued ends after at most one round more than
there are foldings, with nothing queued and all that is the host's as it was. So do the operations
that do this on the way: taking all foldings down, making one, and serving a batch, for what had its
number before. -/
theorem process_drains (s : FoldedEditor) :
    (∃ n ≤ s.live.size + 1, Drains n s s.process) ∧
      s.process.Quiet ∧ (∀ n, s.LeavesHost n s.process) ∧
      s.unfoldAll.Quiet ∧ (∀ n, s.LeavesHost n s.unfoldAll) ∧
      (∀ maxLineLength request result s', s.foldOne maxLineLength request = .ok (result, s') →
        s.LeavesHost s.editor.nextId s' ∧ (result.isFolded = true → s'.Quiet)) ∧
      ∀ requests results s', s.foldAll requests = .ok (results, s') →
        s.LeavesHost s.editor.nextId s' ∧ s'.Quiet :=
  ⟨drains_processRounds (Nat.lt_succ_self _), s.quiet_process, s.process_leavesHost,
    s.cleared.quiet_process, s.unfoldAll_leavesHost,
    fun _ _ _ _ h => foldOne_leavesHost h (Nat.le_refl _),
    fun _ _ _ h => foldAll_leavesHost h (Nat.le_refl _)⟩

/-- The host, with a fold and a marker of its own, changes the second line of a folding. Taking it
down removes a fold that joined two rows, which moves the other folding: a second round. -/
theorem process_drains_cascade :
    let mark : EditorCall := .createMarker ⟨⟨2, 0⟩, ⟨2, 1⟩⟩
    let fold : EditorCall := .fold ⟨⟨2, 3⟩, ⟨2, 4⟩⟩
    let start : FoldedEditor := { editor := { text := "xab\ncdy\nefgh".toList } }
    let hosted := (start.host mark.run).host fold.run
    let requests : List FoldRequest :=
      [⟨1, ⟨⟨0, 1⟩, ⟨1, 2⟩⟩, ['p', 'q']⟩, ⟨2, ⟨⟨2, 1⟩, ⟨2, 3⟩⟩, ['r', 's']⟩]
    let folded := hosted.afterBatch requests
    let s := folded.host (EditorCall.insert ⟨1, 1⟩ ['z']).run
    (∃ results, hosted.foldAll requests = .ok (results, folded)) ∧
      hosted.LeavesHost hosted.editor.nextId folded ∧ folded.Quiet ∧ s.live.keys = [1, 2] ∧
      s.processRound.live.keys = [2] ∧ s.processRound.editor.hasPending = true ∧
      (∃ n ≤ s.live.size + 1, Drains n s s.process) ∧ s.process.Quiet ∧ s.process.live.keys = [2] ∧
      s.LeavesHost 3 s.process ∧ s.process.editor.folds.keys = [2, 8] := by
  intro mark fold start hosted requests folded s
  have hserved : (hosted.foldAll requests).isOk = true := by decide +kernel
  obtain ⟨results, hresults⟩ := foldAll_afterBatch hserved
  obtain ⟨hleaves, hquiet⟩ := (process_drains hosted).2.2.2.2.2.2 _ _ _ hresults
  obtain ⟨hdrains, hrest, hleaves', -⟩ := process_drains s
  exact ⟨⟨results, hresults⟩, hleaves, hquiet, by decide +kernel, by decide +kernel,
    by decide +kernel, hdrains, hrest, by decide +kernel, hleaves' 3, by decide +kernel⟩

end FoldedEditor

end TemplateFolding
