import TemplateFolding.Folding.FoldedEditor
import TemplateFolding.Proofs.Tables

/-!
# The queues run dry

Notifications are applied round by round until a round finds none. Taking a folding down removes its
folds, which may queue new ones, so neither the length of the queues nor the number of changes
decreases. What decreases is the number of foldings: a round that queues something has taken one
down. The loop therefore ends after at most one round more than there are foldings.

None of this depends on how the state came about. It may have any notifications in its queues and
any foldings, whether or not its tables agree.

What applying a notification and highlighting a folding can lead to is said once, as a case
distinction (`onMarkerChange_elim`, `setHighlight_elim`) that the later invariants go through.
-/

namespace TemplateFolding

/-! ## What labels change -/

namespace Editor

variable {e e' e'' : Editor}

/-- Between two editors only decorations have changed, and numbers have been handed out. -/
def OnlyDraws (e e' : Editor) : Prop :=
  ∃ decorations n, e.nextId ≤ n ∧ e' = { e with decorations, nextId := n }

lemma OnlyDraws.refl (e : Editor) : e.OnlyDraws e := ⟨_, _, Nat.le_refl _, rfl⟩

lemma OnlyDraws.trans (h : e.OnlyDraws e') (h' : e'.OnlyDraws e'') : e.OnlyDraws e'' := by
  obtain ⟨d, n, hn, rfl⟩ := h
  obtain ⟨d', n', hn', rfl⟩ := h'
  exact ⟨d', n', Nat.le_trans hn hn', rfl⟩

/-- Drawing touches no settings. -/
lemma OnlyDraws.settings (h : e.OnlyDraws e') : e'.settings = e.settings := by
  obtain ⟨d, n, -, rfl⟩ := h
  rfl

/-- Drawing takes no number back. -/
lemma OnlyDraws.nextId_le (h : e.OnlyDraws e') : e.nextId ≤ e'.nextId := by
  obtain ⟨d, n, hn, rfl⟩ := h
  exact hn

end Editor

namespace Label

variable (l : Label) (e : Editor)

lemma onlyDraws_draw : e.OnlyDraws (l.draw e).2 := by
  unfold draw
  split
  · exact .refl e
  · exact ⟨_, _, Nat.le_succ _, rfl⟩

lemma onlyDraws_hide : e.OnlyDraws (l.hide e).2 := by
  unfold hide
  split
  · exact ⟨_, _, Nat.le_refl _, rfl⟩
  · exact .refl e

lemma onlyDraws_destroy : e.OnlyDraws (l.destroy e) := l.onlyDraws_hide e

lemma onlyDraws_setStyle (style : LabelStyle) : e.OnlyDraws (l.setStyle e style).2 := by
  unfold setStyle
  dsimp only
  split
  · exact ⟨_, _, Nat.le_refl _, rfl⟩
  · exact .refl e

/-- A label that is styled and then hidden does nothing but draw. -/
lemma onlyDraws_setStyle_hide (style : LabelStyle) :
    e.OnlyDraws ((l.setStyle e style).1.hide (l.setStyle e style).2).2 :=
  (l.onlyDraws_setStyle e style).trans (onlyDraws_hide _ _)

end Label

namespace FoldedEditor

variable {s s' s'' : FoldedEditor} {id : FoldingId} {f f' : Folding}

/-! ## What one notification leads to -/

/-- A notification is about a live folding, and the comparison of extents has this outcome. -/
structure Concerns (s : FoldedEditor) (c : MarkerChange) (id : FoldingId) (f : Folding)
    (outcome : Transition) : Prop where
  owner : s.owners.get? c.marker = some id
  live : s.live.get? id = some f
  outcome : Transition.classify c.old c.new f.initialScreen c.valid c.textChanged = outcome

/-- A notification that concerns no folding is passed over. Any other one makes its folding move,
come into view or go out of it, or takes it down. -/
@[elab_as_elim]
theorem onMarkerChange_elim {motive : FoldedEditor → Prop} (s : FoldedEditor) (c : MarkerChange)
    (idle : (∀ id f, s.owners.get? c.marker = some id → s.live.get? id ≠ some f) → motive s)
    (translated : ∀ id f, s.Concerns c id f .translated →
      motive (s.followTranslated id f c.new.start.row))
    (becameVisible : ∀ id f, s.Concerns c id f .becameVisible →
      motive (s.followVisible id f c.new.start.row))
    (becameHidden : ∀ id f, s.Concerns c id f .becameHidden → motive (s.followHidden id f))
    (destroyed : ∀ id f outcome, s.Concerns c id f outcome →
      outcome = .invalidated ∨ outcome = .destructive → motive (s.destroyFolding id)) :
    motive (s.onMarkerChange c) := by
  unfold onMarkerChange
  split
  · rename_i hnone
    refine idle fun id f howner hf => ?_
    rw [howner, Option.bind_some, hf] at hnone
    exact absurd hnone (by simp)
  · rename_i j g hsome
    obtain ⟨id, howner, hlive⟩ := Option.bind_eq_some_iff.1 hsome
    obtain ⟨f, hf, heq⟩ := Option.map_eq_some_iff.1 hlive
    obtain ⟨rfl, rfl⟩ := Prod.mk.inj heq
    split
    · exact translated id f ⟨howner, hf, ‹_›⟩
    · exact becameVisible id f ⟨howner, hf, ‹_›⟩
    · exact becameHidden id f ⟨howner, hf, ‹_›⟩
    · exact destroyed id f _ ⟨howner, hf, ‹_›⟩ (.inl rfl)
    · exact destroyed id f _ ⟨howner, hf, ‹_›⟩ (.inr rfl)

/-- The state with the highlighting of a folding turned on or off. -/
def restyled (s : FoldedEditor) (id : FoldingId) (f : Folding) (on : Bool) : FoldedEditor :=
  { s with
    editor := (f.label.setStyle s.editor (if on then .underCursor else .normal)).2
    live := s.live.insert id { f with
      label := (f.label.setStyle s.editor (if on then .underCursor else .normal)).1
      info := { f.info with highlighted := on } } }

/-- Highlighting restyles a folding that is shown, and passes over all others. -/
@[elab_as_elim]
theorem setHighlight_elim {motive : FoldedEditor → Prop} (s : FoldedEditor) (id : FoldingId)
    (on : Bool) (idle : (∀ f, s.live.get? id = some f → f.label.isHidden = true) → motive s)
    (shown : ∀ f, s.live.get? id = some f → f.label.isHidden = false →
      motive (s.restyled id f on)) : motive (s.setHighlight id on) := by
  unfold setHighlight
  split
  · rename_i hnone
    exact idle fun f hf => absurd (hnone.symm.trans hf) (by simp)
  · rename_i f hf
    split
    · rename_i hhidden
      refine idle fun g hg => ?_
      rwa [← Option.some.inj (hf.symm.trans hg)]
    · rename_i hshown
      exact shown f hf (Bool.not_eq_true _ ▸ hshown)

/-! ## Foldings that are gone -/

/-- Taking a folding down takes its number, and no other one, out of the table. -/
lemma get?_live_destroyFolding (s : FoldedEditor) (id j : FoldingId) :
    (s.destroyFolding id).live.get? j = if j = id then none else s.live.get? j := by
  unfold FoldedEditor.destroyFolding
  split
  · rename_i hnone
    split_ifs with hj
    · rw [hj, hnone]
    · rfl
  · exact Table.get?_erase _ _ _

/-- A folding that is not there does not come back with a change of a marker. -/
lemma live_onMarkerChange (hid : s.live.get? id = none) (c : MarkerChange) :
    (s.onMarkerChange c).live.get? id = none := by
  have hinsert : ∀ {j f} f', s.live.get? j = some f → (s.live.insert j f').get? id = none := by
    intro j f f' hj
    have hne : id ≠ j := by
      intro heq
      rw [← heq, hid] at hj
      exact absurd hj (by simp)
    rw [Table.get?_insert_of_ne _ _ hne, hid]
  refine onMarkerChange_elim s c ?_ ?_ ?_ ?_ ?_
  · exact fun _ => hid
  · exact fun j f hc => hinsert _ hc.live
  · exact fun j f hc => hinsert _ hc.live
  · exact fun j f hc => hinsert _ hc.live
  · intro j f outcome hc _
    rw [get?_live_destroyFolding]
    split_ifs
    · rfl
    · exact hid

/-- A folding that is not there does not come back with highlighting. -/
lemma live_setHighlight (hid : s.live.get? id = none) (j : FoldingId) (on : Bool) :
    (s.setHighlight j on).live.get? id = none := by
  refine setHighlight_elim s j on (fun _ => hid) fun f hf _ => ?_
  have hne : id ≠ j := by
    intro heq
    rw [← heq, hid] at hf
    exact absurd hf (by simp)
  exact (Table.get?_insert_of_ne _ _ hne).trans hid

/-! ## What applying notifications keeps -/

/-- The state with both queues drained. -/
def emptied (s : FoldedEditor) : FoldedEditor :=
  { s with editor := { s.editor with markerChanges := [], cursorMoves := [] } }

/-- What draining, the notifications of markers and changes of highlighting keep is kept by
`process`. -/
theorem process_keeps {P : FoldedEditor → Prop} (hempty : ∀ t, P t → P t.emptied)
    (hchange : ∀ t c, P t → P (t.onMarkerChange c))
    (hhighlight : ∀ t id on, P t → P (t.setHighlight id on)) (hs : P s) : P s.process := by
  have happly : ∀ t c, P t → P (t.applyHighlight c) := by
    intro t c ht
    cases c with
    | add id => exact hhighlight t id true ht
    | remove id => exact hhighlight t id false ht
  have hmove : ∀ t m, P t → P (t.onCursorMove m) := by
    intro t m ht
    unfold FoldedEditor.onCursorMove
    exact List.foldlRecOn _ _ ht fun t ht c _ => happly t c ht
  have hround : ∀ t, P t → P t.processRound := by
    intro t ht
    have hchanges : P (t.editor.markerChanges.foldl FoldedEditor.onMarkerChange t.emptied) :=
      List.foldlRecOn _ _ (hempty t ht) fun t ht c _ => hchange t c ht
    exact List.foldlRecOn t.editor.cursorMoves _ hchanges fun t ht m _ => hmove t m ht
  unfold FoldedEditor.process
  generalize s.live.size + 1 = rounds
  induction rounds generalizing s with
  | zero => exact hs
  | succ rounds ih =>
    unfold FoldedEditor.processRounds
    split
    · exact ih (hround s hs)
    · exact hs

/-- A folding that is not there does not come back. -/
lemma live_process (hfree : s.live.get? id = none) : s.process.live.get? id = none :=
  process_keeps (P := fun t => t.live.get? id = none) (fun _ ht => ht)
    (fun _ c ht => live_onMarkerChange ht c) (fun _ j on ht => live_setHighlight ht j on) hfree

/-- The state with every folding taken down, before what this causes is applied. -/
def cleared (s : FoldedEditor) : FoldedEditor :=
  let t := s.live.keys.foldl FoldedEditor.destroyFolding s
  { t with highlighter := t.highlighter.forgetAll }

/-- Taking foldings down one after the other takes their numbers out of the table. -/
lemma get?_live_destroyFoldings (ids : List FoldingId) (s : FoldedEditor) (j : FoldingId) :
    (ids.foldl destroyFolding s).live.get? j = if j ∈ ids then none else s.live.get? j := by
  induction ids generalizing s with
  | nil => simp
  | cons id ids ih =>
    rw [List.foldl_cons, ih, get?_live_destroyFolding]
    by_cases hj : j = id <;> simp [hj]

lemma live_cleared (s : FoldedEditor) (j : FoldingId) : s.cleared.live.get? j = none := by
  refine (get?_live_destroyFoldings s.live.keys s j).trans ?_
  split_ifs with hj
  · rfl
  · cases hget : s.live.get? j with
    | none => rfl
    | some f => exact absurd (Table.mem_keys_iff.2 ⟨f, hget⟩) hj

/-- No folding is left when all have been taken down. -/
lemma live_unfoldAll (s : FoldedEditor) (j : FoldingId) : s.unfoldAll.live.get? j = none :=
  live_process (s.live_cleared j)

/-! ## Nothing is left in the queues -/

/-- Nothing is queued. -/
def Quiet (s : FoldedEditor) : Prop :=
  s.editor.markerChanges = [] ∧ s.editor.cursorMoves = []

lemma hasPending_eq_false_iff : s.editor.hasPending = false ↔ s.Quiet := by
  simp [Editor.hasPending, Quiet]

/-- Rounds with nothing to do. -/
lemma processRounds_of_quiet (h : s.Quiet) (rounds : Nat) : processRounds rounds s = s := by
  cases rounds with
  | zero => rfl
  | succ rounds =>
    unfold processRounds
    rw [if_neg (by simp [hasPending_eq_false_iff.2 h])]

/-- With nothing queued there is nothing to process. -/
lemma process_of_quiet (h : s.Quiet) : s.process = s :=
  processRounds_of_quiet h _

/-- Unless a folding is gone, nothing has been queued. -/
def Calms (s s' : FoldedEditor) : Prop :=
  s'.live.size < s.live.size ∨ s'.live.size = s.live.size ∧
    s'.editor.markerChanges = s.editor.markerChanges ∧ s'.editor.cursorMoves = s.editor.cursorMoves

lemma Calms.refl (s : FoldedEditor) : s.Calms s := .inr ⟨rfl, rfl, rfl⟩

/-- Steps that queue nothing unless a folding goes queue nothing altogether unless one goes. -/
lemma Calms.trans (h : s.Calms s') (h' : s'.Calms s'') : s.Calms s'' := by
  rcases h' with hlt' | ⟨hsize', hchanges', hmoves'⟩
  · left
    rcases h with hlt | ⟨hsize, -⟩ <;> omega
  · unfold Calms
    rw [hsize', hchanges', hmoves']
    exact h

/-- A folding gives way to another one, and what is drawn changes. -/
lemma calms_relabel (hf : s.live.get? id = some f) (hlive : s'.live = s.live.insert id f')
    (hdraws : s.editor.OnlyDraws s'.editor) : s.Calms s' := by
  obtain ⟨d, m, -, heditor⟩ := hdraws
  right
  rw [hlive, heditor]
  exact ⟨Table.size_insert hf, rfl, rfl⟩

/-- Taking a folding down makes the foldings fewer, or does nothing. -/
lemma calms_destroyFolding (s : FoldedEditor) (id : FoldingId) : s.Calms (s.destroyFolding id) := by
  unfold FoldedEditor.destroyFolding
  split
  · exact .refl s
  · rename_i f hf
    exact .inl (Table.size_erase_lt hf)

/-- Following a notification takes the folding down, or adds nothing to the queues. -/
lemma calms_onMarkerChange (s : FoldedEditor) (c : MarkerChange) :
    s.Calms (s.onMarkerChange c) := by
  refine onMarkerChange_elim s c ?_ ?_ ?_ ?_ ?_
  · exact fun _ => .refl s
  · exact fun _ _ hc => calms_relabel hc.live rfl (.refl _)
  · exact fun _ f hc => calms_relabel hc.live rfl (f.label.onlyDraws_draw _)
  · exact fun _ f hc => calms_relabel hc.live rfl (f.label.onlyDraws_setStyle_hide _ _)
  · exact fun id _ _ _ _ => s.calms_destroyFolding id

/-- Highlighting adds nothing to the queues. -/
lemma calms_setHighlight (s : FoldedEditor) (id : FoldingId) (on : Bool) :
    s.Calms (s.setHighlight id on) :=
  setHighlight_elim s id on (fun _ => .refl s) fun f hf _ =>
    calms_relabel hf rfl (f.label.onlyDraws_setStyle _ _)

/-- A move of the cursor adds nothing to the queues. -/
lemma calms_onCursorMove (s : FoldedEditor) (m : CursorMove) : s.Calms (s.onCursorMove m) := by
  refine List.foldlRecOn _ _ (.refl s) fun t ht c _ => ht.trans ?_
  cases c with
  | add id => exact t.calms_setHighlight id true
  | remove id => exact t.calms_setHighlight id false

/-- A round takes a folding down, or it leaves the queues empty. -/
lemma processRound_calms (s : FoldedEditor) :
    s.processRound.live.size < s.live.size ∨
      s.processRound.live.size = s.live.size ∧ s.processRound.Quiet := by
  have hchanges : s.emptied.Calms (s.editor.markerChanges.foldl onMarkerChange s.emptied) :=
    List.foldlRecOn _ _ (.refl _) fun t ht c _ => ht.trans (t.calms_onMarkerChange c)
  have hround : s.emptied.Calms s.processRound :=
    List.foldlRecOn s.editor.cursorMoves _ hchanges fun t ht m _ =>
      ht.trans (t.calms_onCursorMove m)
  exact hround

/-- Applying what is queued until a round finds nothing leads from one state to another, in so many
rounds that each find something. -/
inductive Drains : Nat → FoldedEditor → FoldedEditor → Prop where
  | done {s : FoldedEditor} : s.editor.hasPending = false → Drains 0 s s
  | round {n : Nat} {s s' : FoldedEditor} :
      s.editor.hasPending = true → Drains n s.processRound s' → Drains (n + 1) s s'

/-- Where draining ends, nothing is queued. -/
lemma Drains.quiet {n : Nat} (h : Drains n s s') : s'.editor.hasPending = false := by
  induction h with
  | done hquiet => exact hquiet
  | round _ _ ih => exact ih

/-- With a round more than there are foldings to spare, the loop stops because nothing is queued. -/
lemma drains_processRounds {rounds : Nat} (h : s.live.size < rounds) :
    ∃ n ≤ s.live.size + 1, Drains n s (processRounds rounds s) := by
  induction rounds generalizing s with
  | zero => omega
  | succ rounds ih =>
    unfold FoldedEditor.processRounds
    split
    · rename_i hpending
      rcases s.processRound_calms with hlt | ⟨hsize, hquiet⟩
      · obtain ⟨n, hn, hdrains⟩ := ih (s := s.processRound) (by omega)
        exact ⟨n + 1, by omega, .round hpending hdrains⟩
      · -- nothing is queued, so the remaining rounds do nothing
        rw [processRounds_of_quiet hquiet]
        exact ⟨1, by omega, .round hpending (.done (hasPending_eq_false_iff.2 hquiet))⟩
    · rename_i hpending
      exact ⟨0, Nat.zero_le _, .done (by simpa using hpending)⟩

/-- Nothing is queued when notifications have been applied. -/
lemma quiet_process (s : FoldedEditor) : s.process.Quiet := by
  obtain ⟨n, -, hdrains⟩ := drains_processRounds (Nat.lt_succ_self s.live.size)
  exact hasPending_eq_false_iff.1 hdrains.quiet

end FoldedEditor

end TemplateFolding
