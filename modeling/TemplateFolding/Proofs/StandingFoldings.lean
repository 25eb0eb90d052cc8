import TemplateFolding.Proofs.Rounds
import TemplateFolding.Proofs.StandingText

/-!
# Foldings that stand apart

Each folding has firm text of its own, and the folds of the others keep out of it. So the removal of
a folding moves the others, but it neither hides nor reveals them: a folding is collapsed to a point
exactly if folds of the host bury it. From this follows that a cascade of removals changes the
highlighting of no folding that survives it.
-/

namespace TemplateFolding

open Text Point

/-! ## Translated extents -/

section Translations

variable {r s : Range}

lemma isPoint_of_isTranslationOf (h : r.isTranslationOf s = true) : r.isPoint = s.isPoint := by
  obtain ⟨⟨a, b⟩, ⟨c, d⟩⟩ := r
  obtain ⟨⟨a', b'⟩, ⟨c', d'⟩⟩ := s
  simp only [Range.isTranslationOf, Point.deltaTo, beq_iff_eq, Prod.mk.injEq] at h
  rw [Bool.eq_iff_iff]
  simp only [Range.isPoint, beq_iff_eq, Point.mk.injEq]
  omega

lemma row_of_isTranslationOf (h : r.isTranslationOf s = true) (hr : r.start.row = r.stop.row) :
    s.start.row = s.stop.row := by
  simp only [Range.isTranslationOf, Point.deltaTo, beq_iff_eq, Prod.mk.injEq] at h
  omega

end Translations

/-- A range with something in it that keeps out of another. -/
structure Range.KeepsOutOf (q r : Range) : Prop where
  lt : q.start < q.stop
  apart : q.stop ≤ r.start ∨ r.stop ≤ q.start

namespace FoldedEditor

variable {s s' t : FoldedEditor} {id : FoldingId} {f f' : Folding} {r : Range}

/-- A folding is live and its marker is valid over a range. -/
structure At (s : FoldedEditor) (id : FoldingId) (f : Folding) (r : Range) : Prop where
  live : s.live.get? id = some f
  marker : s.editor.markers.get? f.marker = some ⟨r, true⟩

/-- A folding that remains has the range, the folds and the first shape that it had. -/
lemma At.of_remains (h : s.Remains s') (ha : s'.At id f' r) :
    ∃ f, s.At id f r ∧ f'.folds = f.folds ∧ f'.initialScreen = f.initialScreen := by
  obtain ⟨f, hf, hmarker, hfolds, hinitial⟩ := h.live id f' ha.live
  refine ⟨f, ⟨hf, ?_⟩, hfolds, hinitial⟩
  rw [← hmarker, ← h.markers id f' ha.live]
  exact ha.marker

/-- A folding that is still there has the range, the folds and the first shape that it had. -/
lemma Remains.at (h : s.Remains s') (ha : s.At id f r) (hf' : s'.live.get? id = some f') :
    s'.At id f' r ∧ f'.folds = f.folds ∧ f'.initialScreen = f.initialScreen := by
  obtain ⟨g, hg, hmarker, hfolds, hscreen⟩ := h.live id f' hf'
  obtain rfl := Option.some.inj (ha.live.symm.trans hg)
  refine ⟨⟨hf', ?_⟩, hfolds, hscreen⟩
  rw [h.markers id f' hf', hmarker]
  exact ha.marker

/-- Every folding has firm text, was drawn on one row when it was made, and is kept clear of by the
folds of the others. -/
structure Standing (s : FoldedEditor) : Prop where
  firm : ∀ id f r, s.At id f r → ∃ x : Text, x.Firm ∧ s.editor.text.StandsAt x r
  flat : ∀ id f, s.live.get? id = some f → f.initialScreen.start.row = f.initialScreen.stop.row
  handedOut : ∀ id f k, s.live.get? id = some f → k ∈ f.folds.folds → k < s.editor.nextId
  clear : ∀ id f r id' f' k q, s.At id f r → s.live.get? id' = some f' → id' ≠ id →
    k ∈ f'.folds.folds → s.editor.folds.get? k = some q → q.KeepsOutOf r

lemma Standing.of_none (h : ∀ id f, s.live.get? id ≠ some f) : s.Standing where
  firm := fun id f _ ha => absurd ha.live (h id f)
  flat := fun id f hf => absurd hf (h id f)
  handedOut := fun id f _ hf => absurd hf (h id f)
  clear := fun id f _ _ _ _ _ ha => absurd ha.live (h id f)

/-- Settings and highlighting have no part in it. -/
lemma Standing.configure (h : s.Standing) (settings : Settings) (highlighter : Highlighter) :
    ({ s with highlighter, editor := { s.editor with settings } } : FoldedEditor).Standing where
  firm := fun id f r ha => h.firm id f r ⟨ha.live, ha.marker⟩
  flat := h.flat
  handedOut := h.handedOut
  clear := fun id f r id' f' k q ha => h.clear id f r id' f' k q ⟨ha.live, ha.marker⟩

/-- A fold that remains is the fold that it was. -/
lemma Remains.get?_folds (h : s.Remains s') {k : FoldId} {q : Range}
    (hq : s'.editor.folds.get? k = some q) : s.editor.folds.get? k = some q := by
  rcases h.folds k with heq | ⟨hnone, -⟩
  · rwa [heq] at hq
  · rw [hnone] at hq
    exact absurd hq (by simp)

/-- Foldings that remain stand as they stood. -/
lemma Standing.remains (h : s.Standing) (hr : s.Remains s') : s'.Standing where
  firm := by
    intro id f' r ha
    obtain ⟨f, ha', -⟩ := ha.of_remains hr
    rw [hr.text]
    exact h.firm id f r ha'
  flat := by
    intro id f' hf'
    obtain ⟨f, hf, -, -, hinitial⟩ := hr.live id f' hf'
    rw [hinitial]
    exact h.flat id f hf
  handedOut := by
    intro id f' k hf' hk
    obtain ⟨f, hf, -, hfolds, -⟩ := hr.live id f' hf'
    exact Nat.lt_of_lt_of_le (h.handedOut id f k hf (hfolds ▸ hk)) hr.nextId
  clear := by
    intro id f r id' g' k q ha hg' hne hk hq
    obtain ⟨f₀, ha', -⟩ := ha.of_remains hr
    obtain ⟨g, hg, -, hfolds, -⟩ := hr.live id' g' hg'
    exact h.clear id f₀ r id' g k q ha' hg hne (hfolds ▸ hk) (hr.get?_folds hq)

/-- The removal of other foldings neither buries a folding nor digs it out. -/
lemma Standing.buried_iff (h : s.Standing) (hr : s.Remains s') (ha : s'.At id f' r) :
    Buried s'.editor.folds.values r.start r.stop ↔
      Buried s.editor.folds.values r.start r.stop := by
  obtain ⟨f, ha', -⟩ := ha.of_remains hr
  constructor
  · intro hburied x hpx hxq
    obtain ⟨q, hq, hinside⟩ := hburied x hpx hxq
    obtain ⟨k, hk⟩ := Table.mem_values_iff.1 hq
    exact ⟨q, Table.mem_values_iff.2 ⟨k, hr.get?_folds hk⟩, hinside⟩
  · intro hburied x hpx hxq
    obtain ⟨q, hq, hqx, hxq'⟩ := hburied x hpx hxq
    obtain ⟨k, hk⟩ := Table.mem_values_iff.1 hq
    refine ⟨q, Table.mem_values_iff.2 ⟨k, ?_⟩, hqx, hxq'⟩
    rcases hr.folds k with heq | ⟨-, id', g, hg, hgone, hmem⟩
    · rw [heq, hk]
    · -- a fold that is gone belonged to another folding, and kept out of this one
      have hne : id' ≠ id := by
        rintro rfl
        rw [ha.live] at hgone
        exact absurd hgone (by simp)
      rcases (h.clear id f r id' g k q ha' hg hne hmem hk).apart with hle | hle
      · exact absurd (lt_of_le_of_lt hle hpx) (not_lt.2 (le_of_lt hxq'))
      · exact absurd (lt_of_le_of_lt hle hqx) (not_lt.2 hxq)

/-! ## Hidden foldings -/

/-- A folding is hidden exactly if folds bury it, unless they did so when it was made. -/
def Shows (s : FoldedEditor) : Prop :=
  ∀ id f r, s.At id f r → (f.label.isHidden = true ↔
    f.initialScreen.isPoint = false ∧ Buried s.editor.folds.values r.start r.stop)

/-- A folding looks hidden if folds bury it, unless it was a point when it was made. -/
lemma Looks.isHidden_iff {e : Editor} {x : Text} (h : t.Looks id f (e.screenRange r)) (hk : e.Kept)
    (hx : x.Firm) (hs : e.text.StandsAt x r) :
    f.label.isHidden = true ↔
      f.initialScreen.isPoint = false ∧ Buried e.folds.values r.start r.stop := by
  obtain ⟨hstart, hstop, hlt⟩ := hs.holds hx
  rw [← hk.isPoint_screenRange hstart hstop hlt]
  rcases h with hlook | ⟨hinitial, hlook⟩
  · rw [hlook.2.1, isPoint_of_isTranslationOf hlook.1]
    simp
  · simp [hlook.1, hlook.2.1, hinitial]

/-- The marker of a folding is valid when nothing is queued. -/
lemma Tracked.exists_at (h : s.Tracked []) (hq : s.Quiet) (hf : s.live.get? id = some f) :
    ∃ r, s.At id f r := by
  obtain ⟨⟨r, valid⟩, hm, hv⟩ := h.valid hq hf
  obtain rfl : valid = true := hv
  exact ⟨r, hf, hm⟩

/-- With nothing queued a folding looks as its marker says. -/
lemma Tracked.looks_of_quiet (h : s.Tracked []) (hq : s.Quiet) (ha : s.At id f r) :
    s.Looks id f (s.editor.screenRange r) := by
  obtain ⟨known, hfol⟩ := h.follows id f ha.live
  have hnow : s.editor.Tracks f.marker (s.editor.screenRange r) := by
    refine ⟨_, ha.marker, ?_⟩
    unfold Editor.Accounts Editor.pending?
    rw [hq.1]
    exact ⟨rfl, rfl⟩
  exact Editor.Tracks.unique hfol.tracks hnow ▸ hfol.looks

/-- With nothing queued foldings are hidden where they are buried. -/
lemma Tracked.shows (h : s.Tracked []) (hq : s.Quiet) (hs : s.Standing) : s.Shows := by
  intro id f r ha
  obtain ⟨x, hx, hstands⟩ := hs.firm id f r ha
  exact (h.looks_of_quiet hq ha).isHidden_iff h.tidy.toKept hx hstands

/-- What is hidden is not highlighted. -/
lemma Tracked.highlighted_of_isHidden (h : s.Tracked []) (hf : s.live.get? id = some f)
    (hhidden : f.label.isHidden = true) : f.info.highlighted = false := by
  obtain ⟨known, hfol⟩ := h.follows id f hf
  rcases hfol.looks with hlook | ⟨-, hlook⟩
  · rw [hlook.2.1] at hhidden
    exact absurd hhidden (by simp)
  · exact hlook.2.2.2

end FoldedEditor

/-! ## Cascades -/

/-- The style of the label says whether the folding is highlighted. -/
def Folding.Styled (f : Folding) : Prop :=
  f.label.style = if f.info.highlighted then .underCursor else .normal

lemma Folding.styled_highlight (f : Folding) (on : Bool) : (f.highlight on).Styled := rfl

/-- A notification leaves the style of a label in agreement with the highlighting. -/
lemma Folding.Continues.styled {f f' : Folding} (h : f.Continues f') (hf : f.Styled) :
    f'.Styled := by
  unfold Folding.Styled at *
  rcases h.highlight with ⟨hinfo, hstyle⟩ | ⟨-, hinfo, hstyle⟩
  · rw [hinfo, hstyle, hf]
  · rw [hinfo, hstyle]
    rfl

/-- Two foldings that cannot be told apart by what they draw. -/
structure Folding.LooksLike (f f' : Folding) : Prop where
  highlighted : f'.info.highlighted = f.info.highlighted
  isHidden : f'.label.isHidden = f.label.isHidden

namespace FoldedEditor

variable {s s' t : FoldedEditor} {id : FoldingId} {f f' : Folding} {r : Range}

/-- The cursor does not move in the buffer, and every folding is shown or hidden already as it has
to be, so all that can happen is that foldings are taken down. -/
structure Calm (s : FoldedEditor) : Prop where
  tracked : s.Tracked []
  standing : s.Standing
  still : s.editor.Still
  shows : s.Shows
  styled : ∀ id f, s.live.get? id = some f → f.Styled

/-- Following the markers of a calm state takes foldings down at most: the others look as before,
and it is calm again. -/
lemma Calm.followed (h : s.Calm) : s.followed.Calm ∧
    ∀ id f', s.followed.live.get? id = some f' →
      ∃ f, s.live.get? id = some f ∧ f.LooksLike f' := by
  have hremains := h.tracked.remains_followed
  -- each folding continues, and is hidden after the round exactly if it was before
  have hround : ∀ id f', s.followed.live.get? id = some f' → ∃ f r, s.At id f r ∧
      f.Continues f' ∧ f'.label.isHidden = f.label.isHidden := by
    intro id f' hf'
    obtain ⟨f, ⟨r, valid⟩, hf, hcont, hm, rfl, hlooks⟩ := h.tracked.looks_followed hf'
    have ha : s.At id f r := ⟨hf, hcont.marker ▸ hm⟩
    obtain ⟨x, hx, hstands⟩ := h.standing.firm id f r ha
    obtain ⟨g, hg, -, -, hinitial⟩ := hremains.live id f' hf'
    obtain rfl := Option.some.inj (hf.symm.trans hg)
    refine ⟨f, r, ha, hcont, ?_⟩
    rw [Bool.eq_iff_iff, hlooks.isHidden_iff h.tracked.tidy.toKept hx hstands, hinitial,
      h.shows id f r ha]
  refine ⟨⟨h.tracked.followed, h.standing.remains hremains, ?_, ?_, ?_⟩, ?_⟩
  · rw [← processRound_of_still h.still]
    exact h.tracked.still_processRound
  · intro id f' r ha'
    obtain ⟨f, r', ha, hcont, hhidden⟩ := hround id f' ha'.live
    obtain ⟨g, hag, -, hinitial⟩ := ha'.of_remains hremains
    obtain rfl := Option.some.inj (ha.live.symm.trans hag.live)
    rw [h.standing.buried_iff hremains ha', hinitial, hhidden]
    exact h.shows id f r hag
  · intro id f' hf'
    obtain ⟨f, r, ha, hcont, -⟩ := hround id f' hf'
    exact hcont.styled (h.styled id f ha.live)
  · intro id f' hf'
    obtain ⟨f, r, ha, hcont, hhidden⟩ := hround id f' hf'
    refine ⟨f, ha.live, ?_, hhidden⟩
    rcases hcont.highlight with ⟨hinfo, -⟩ | ⟨hhidden', hinfo, -⟩
    · exact hinfo
    · -- it was hidden before, so it was not highlighted either
      rw [hinfo, h.tracked.highlighted_of_isHidden ha.live (hhidden ▸ hhidden')]

/-- A cascade of removals leaves the highlighting of the survivors as it is. -/
theorem Calm.processRounds (h : s.Calm) (rounds : Nat)
    (hf' : (processRounds rounds s).live.get? id = some f') :
    ∃ f, s.live.get? id = some f ∧ f.LooksLike f' ∧ f'.Styled := by
  induction rounds generalizing s with
  | zero => exact ⟨f', hf', ⟨rfl, rfl⟩, h.styled id f' hf'⟩
  | succ rounds ih =>
    unfold FoldedEditor.processRounds at hf'
    split at hf'
    · rw [processRound_of_still h.still] at hf'
      obtain ⟨hcalm, hlive⟩ := h.followed
      obtain ⟨g, hg, hlook, hstyled⟩ := ih hcalm hf'
      obtain ⟨f, hf, hlook'⟩ := hlive id g hg
      exact ⟨f, hf, ⟨hlook.1.trans hlook'.1, hlook.2.trans hlook'.2⟩, hstyled⟩
    · exact ⟨f', hf', ⟨rfl, rfl⟩, h.styled id f' hf'⟩

end FoldedEditor

end TemplateFolding
