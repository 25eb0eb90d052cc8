import Mathlib.Data.List.Nodup
import Mathlib.Data.List.Perm.Basic
import TemplateFolding.Proofs.FoldedParts

/-!
# What is seen of a folded buffer

Whenever an operation has finished, the lines on the screen are those of the buffer in which the
range of every folding is replaced by its preview. No placeholder of a fold is left to be seen, and
no other text is lost, repeated or painted over.

The invariant behind it is `Sound`: the folds and decorations are those of the foldings, and each
folding was wider than a point when it was made. It is kept by every notification that is applied,
so by `process`, and by serving the requests for the declarations of a text one after the other.
-/

namespace TemplateFolding

open Text Point Range

/-- What a folding has in the editor. -/
def Folding.part (f : Folding) : Part := ⟨f.marker, f.folds.folds, f.label.text⟩

namespace FoldedEditor

variable {s s' : FoldedEditor} {extra : FoldingId → Option Part} {id : FoldingId} {f : Folding}
  {request : FoldRequest} {info : FoldingInfo}

/-- The parts of the live foldings, and those of foldings that are not registered yet. -/
def parts (s : FoldedEditor) (extra : FoldingId → Option Part) (id : FoldingId) : Option Part :=
  ((s.live.get? id).map Folding.part).or (extra id)

lemma parts_of_live (hf : s.live.get? id = some f) : s.parts extra id = some f.part := by
  rw [parts, hf]
  rfl

/-- Without others, the parts are those of the live foldings. -/
lemma exists_live_of_parts {p : Part} (h : s.parts (fun _ => none) id = some p) :
    ∃ f, s.live.get? id = some f ∧ f.part = p := by
  rw [parts, Option.or_none] at h
  exact Option.map_eq_some_iff.1 h

/-- Everything drawn belongs to a folding, and no folding was made as narrow as a point. -/
structure Sound (s : FoldedEditor) (extra : FoldingId → Option Part) : Prop where
  faithful : s.editor.Faithful (s.parts extra)
  fresh : ∀ id f, s.live.get? id = some f → extra id = none
  wide : ∀ id f, s.live.get? id = some f → f.initialScreen.isPoint = false

/-! ## Steps -/

/-- Taking a folding down takes down its part. -/
lemma Sound.destroyFolding (h : s.Sound extra) (hf : s.live.get? id = some f)
    (hr : s.editor.Redraws (f.label.destroy s.editor) f.marker) :
    (s.destroyFolding id).Sound extra := by
  have hredrawn := h.faithful.redraw (parts_of_live hf) hr
  have hdestroyed := hredrawn.destroy (parts_of_live hf) f.folds rfl
  have hlive := get?_live_destroyFolding s id
  have hparts : (s.destroyFolding id).parts extra =
      fun j => if j = id then none else s.parts extra j := by
    funext j
    rw [parts, hlive]
    split_ifs with hj
    · rw [hj, h.fresh id f hf]
      rfl
    · rfl
  have hsub : ∀ j g, (s.destroyFolding id).live.get? j = some g → s.live.get? j = some g := by
    intro j g hg
    rw [hlive] at hg
    split_ifs at hg
    exact hg
  refine ⟨?_, fun j g hg => h.fresh j g (hsub j g hg), fun j g hg => h.wide j g (hsub j g hg)⟩
  rw [hparts]
  unfold FoldedEditor.destroyFolding
  rw [hf]
  exact hdestroyed

/-- No step takes from the editor what a folding that stays has there. -/
lemma Step.sound (hstep : Step s s') (h : s.Sound extra) : s'.Sound extra := by
  cases hstep with
  | idle => exact h
  | @relabel id f f' e _ hf _ hmarker hfolds htext hscreen hredraw =>
    -- a label that is shown, hidden or restyled belongs to the same part
    have hparts : ({ s with editor := e, live := s.live.insert id f' } : FoldedEditor).parts extra =
        s.parts extra := by
      funext j
      rw [parts, parts, Table.get?_insert]
      split_ifs with hj
      · rw [hj, hf]
        simp [Folding.part, hmarker, hfolds, htext]
      · rfl
    refine ⟨?_, ?_, ?_⟩
    · have hredrawn := h.faithful.redraw (parts_of_live hf) hredraw
      rw [← hparts] at hredrawn
      exact hredrawn
    · intro j g hg
      rw [Table.get?_insert] at hg
      split_ifs at hg with hj
      · rw [hj]
        exact h.fresh id f hf
      · exact h.fresh j g hg
    · intro j g hg
      rw [Table.get?_insert] at hg
      split_ifs at hg with hj
      · rw [← Option.some.inj hg, hscreen]
        exact h.wide id f hf
      · exact h.wide j g hg
  | destroy hf _ hredraw => exact h.destroyFolding hf hredraw

/-- A change of the editor that keeps what the foldings have in it. -/
lemma Sound.of_editor (h : s.Sound extra) (hlive : s'.live = s.live)
    (he : s'.editor.Faithful (s.parts extra)) : s'.Sound extra := by
  have hparts : s'.parts extra = s.parts extra := by
    funext j
    rw [parts, parts, hlive]
  refine ⟨hparts ▸ he, ?_, ?_⟩
  · rw [hlive]
    exact h.fresh
  · rw [hlive]
    exact h.wide

/-- Processing leaves the foldings with what they have in the editor. -/
lemma Sound.process (h : s.Sound extra) (ht : s.Tracked []) : s.process.Sound extra := by
  refine ht.process_induction h ?_ fun t t' hstep hs => hstep.sound hs
  intro t hs
  exact hs.of_editor rfl (hs.faithful.of_same rfl rfl rfl (Nat.le_refl _) hs.faithful.decorations)

/-- Applying notifications does not touch the text. -/
lemma Tracked.text_process (ht : s.Tracked []) : s.process.editor.text = s.editor.text := by
  refine ht.process_induction (P := fun t => t.editor.text = s.editor.text) rfl (fun _ h => h) ?_
  intro t t' hstep h
  cases hstep with
  | idle => exact h
  | relabel _ _ _ _ _ _ hredraw => exact hredraw.text.trans h
  | @destroy id f hf _ hredraw =>
    unfold FoldedEditor.destroyFolding
    rw [hf]
    exact (Editor.destroyFolds_spec f.folds _).1.trans (hredraw.text.trans h)

/-! ## The covers of the foldings -/

/-- The ranges of the live foldings, each with the preview of its folding. -/
def covers (s : FoldedEditor) : List Cover :=
  s.live.values.filterMap fun f => (s.editor.markerRange? f.marker).map f.part.cover

/-- When nothing is queued every folding has a valid marker. -/
lemma Tracked.valid (h : s.Tracked []) (hq : s.Quiet) (hf : s.live.get? id = some f) :
    ∃ m, s.editor.markers.get? f.marker = some m ∧ m.valid = true := by
  obtain ⟨known, hfol⟩ := h.follows id f hf
  obtain ⟨m, hm, hacc⟩ := hfol.tracks
  unfold Editor.Accounts Editor.pending? at hacc
  rw [hq.1] at hacc
  exact ⟨m, hm, hacc.1⟩

/-- The cover of a folding whose marker exists. -/
def coverOf (s : FoldedEditor) (f : Folding) : Cover :=
  f.part.cover ((s.editor.markerRange? f.marker).getD ⟨.origin, .origin⟩)

/-- When nothing is queued every folding has its cover. -/
lemma Tracked.covers_eq (h : s.Tracked []) (hq : s.Quiet) :
    s.covers = s.live.values.map s.coverOf := by
  rw [covers, ← List.filterMap_eq_map]
  refine List.filterMap_congr fun f hf => ?_
  obtain ⟨id, hf⟩ := Table.mem_values_iff.1 hf
  obtain ⟨m, hm, -⟩ := h.valid hq hf
  simp [coverOf, Editor.markerRange?, hm]

/-- The covers are those of the live foldings. -/
lemma Tracked.mem_covers_iff (h : s.Tracked []) (hq : s.Quiet) {c : Cover} :
    c ∈ s.covers ↔ ∃ id f, s.live.get? id = some f ∧ s.coverOf f = c := by
  rw [h.covers_eq hq, List.mem_map]
  constructor
  · rintro ⟨f, hf, hc⟩
    obtain ⟨id, hf⟩ := Table.mem_values_iff.1 hf
    exact ⟨id, f, hf, hc⟩
  · rintro ⟨id, f, hf, hc⟩
    exact ⟨f, Table.mem_values_iff.2 ⟨id, hf⟩, hc⟩

/-- The cover of a folding fits its range, its folds are those of the cover, and its range is that
of the marker. -/
lemma Tracked.coverOf_spec (h : s.Tracked []) (hq : s.Quiet)
    (hs : s.editor.Faithful (s.parts fun _ => none)) (hf : s.live.get? id = some f) :
    (s.coverOf f).Fits s.editor.text ∧
      f.folds.folds.map s.editor.folds.get? = ((s.coverOf f).folds s.editor.text).map some ∧
      s.editor.markerRange? f.marker = some (s.coverOf f).range := by
  obtain ⟨m, hm, hv⟩ := h.valid hq hf
  have hcover : s.coverOf f = f.part.cover m.range := by
    simp [coverOf, Editor.markerRange?, hm]
  obtain ⟨hfits, hfolds⟩ := hs.fits id f.part m (parts_of_live hf) hm hv
  rw [hcover]
  refine ⟨hfits, hfolds, ?_⟩
  rw [Editor.markerRange?, hm]
  rfl

/-- The covers stand in the order of their foldings. -/
lemma Tracked.pairwise_covers (h : s.Tracked []) (hq : s.Quiet)
    (hs : s.editor.Faithful (s.parts fun _ => none)) :
    s.covers.Pairwise fun c c' => c.marker ≠ c'.marker ∧ c.range.stop ≤ c'.range.start := by
  rw [h.covers_eq hq, Table.values, List.map_map, List.pairwise_map]
  refine s.live.ascending.imp_of_mem ?_
  intro x x' hx hx' hlt
  have hf := Table.mem_entries_iff.1 hx
  have hf' := Table.mem_entries_iff.1 hx'
  obtain ⟨m, hm, hv⟩ := h.valid hq hf
  obtain ⟨m', hm', hv'⟩ := h.valid hq hf'
  have hparts : s.parts (fun _ => none) x.1 = some x.2.part := parts_of_live hf
  have hparts' : s.parts (fun _ => none) x'.1 = some x'.2.part := parts_of_live hf'
  have hranges := hs.ordered _ _ m _ _ m' hparts hparts' hm hm' hv hv' hlt
  refine ⟨(hs.apart _ _ _ _ hparts hparts' (Nat.ne_of_lt hlt)).1, ?_⟩
  simpa [coverOf, Editor.markerRange?, hm, hm', Part.cover] using hranges

/-- The covers of the foldings are arranged in the text. -/
lemma Tracked.arranged_covers (h : s.Tracked []) (hq : s.Quiet)
    (hs : s.editor.Faithful (s.parts fun _ => none)) :
    Arranged s.editor.text .origin s.editor.text.fullRange.stop s.covers := by
  have hfits : ∀ c ∈ s.covers, c.Fits s.editor.text := by
    intro c hc
    obtain ⟨id, f, hf, rfl⟩ := (h.mem_covers_iff hq).1 hc
    exact (h.coverOf_spec hq hs hf).1
  refine ⟨hfits, laid_of_pairwise (origin_le _) ?_ ?_⟩
  · intro r hr
    obtain ⟨c, hc, rfl⟩ := List.mem_map.1 hr
    exact ⟨origin_le _, (hfits c hc).lt, le_stop (hfits c hc).stop⟩
  · rw [List.pairwise_map]
    exact (h.pairwise_covers hq hs).imp fun hcc => hcc.2

/-- The numbers of the folds that foldings have in the editor. -/
def foldIds (s : FoldedEditor) : List FoldId := s.live.values.flatMap fun f => f.folds.folds

/-- No fold belongs to two foldings, or to one of them twice. -/
lemma nodup_foldIds (hs : s.editor.Faithful (s.parts fun _ => none)) : s.foldIds.Nodup := by
  rw [foldIds, List.nodup_flatMap]
  constructor
  · intro f hf
    obtain ⟨id, hf⟩ := Table.mem_values_iff.1 hf
    exact hs.nodup id _ (parts_of_live hf)
  · rw [Table.values, List.pairwise_map]
    refine s.live.ascending.imp_of_mem ?_
    intro x x' hx hx' hlt
    exact (hs.apart _ _ _ _ (parts_of_live (Table.mem_entries_iff.1 hx))
      (parts_of_live (Table.mem_entries_iff.1 hx')) (Nat.ne_of_lt hlt)).2

/-- The folds of the foldings are found where the covers need them. -/
lemma Tracked.map_foldIds (h : s.Tracked []) (hq : s.Quiet)
    (hs : s.editor.Faithful (s.parts fun _ => none)) :
    s.foldIds.map s.editor.folds.get? = (s.covers.flatMap (·.folds s.editor.text)).map some := by
  rw [foldIds, h.covers_eq hq, List.flatMap_map, List.map_flatMap, List.map_flatMap]
  refine List.flatMap_congr fun f hf => ?_
  obtain ⟨id, hf⟩ := Table.mem_values_iff.1 hf
  exact (h.coverOf_spec hq hs hf).2.1

/-- There are no other folds than those of the foldings. -/
lemma Tracked.perm_keys (h : s.Tracked []) (hq : s.Quiet)
    (hs : s.editor.Faithful (s.parts fun _ => none)) : s.editor.folds.keys.Perm s.foldIds := by
  rw [List.perm_ext_iff_of_nodup (Table.nodup_keys _) (nodup_foldIds hs)]
  intro k
  rw [Table.mem_keys_iff]
  constructor
  · rintro ⟨r, hr⟩
    obtain ⟨id, p, hp, hk⟩ := hs.folds k r hr
    obtain ⟨f, hf, rfl⟩ := exists_live_of_parts hp
    exact List.mem_flatMap.2 ⟨f, Table.mem_values_iff.2 ⟨id, hf⟩, hk⟩
  · intro hk
    have hmem : s.editor.folds.get? k ∈ s.foldIds.map s.editor.folds.get? := List.mem_map_of_mem hk
    rw [h.map_foldIds hq hs] at hmem
    obtain ⟨r, -, hr⟩ := List.mem_map.1 hmem
    exact ⟨r, hr.symm⟩

/-- The folds of the editor are those of the covers. -/
lemma Tracked.perm_folds (h : s.Tracked []) (hq : s.Quiet)
    (hs : s.editor.Faithful (s.parts fun _ => none)) :
    s.editor.folds.values.Perm (s.covers.flatMap (·.folds s.editor.text)) := by
  have hinjective : Function.Injective (some : Range → Option Range) := fun _ _ => Option.some.inj
  rw [← List.map_perm_map_iff hinjective, Table.map_some_values, ← h.map_foldIds hq hs]
  exact (h.perm_keys hq hs).map _

/-- When nothing is queued every folding is as wide as its preview. -/
lemma Tracked.extent (h : s.Tracked []) (hq : s.Quiet)
    (hs : s.editor.Faithful (s.parts fun _ => none)) (hf : s.live.get? id = some f) {m : Marker}
    (hm : s.editor.markers.get? f.marker = some m) :
    (s.editor.screenRange m.range).isPoint = false := by
  obtain ⟨hfits, -, hrange⟩ := h.coverOf_spec hq hs hf
  have hrange : m.range = (s.coverOf f).range := by
    rw [Editor.markerRange?, hm] at hrange
    exact Option.some.inj hrange
  have hmem : s.coverOf f ∈ s.covers := (h.mem_covers_iff hq).2 ⟨id, f, hf, rfl⟩
  have harranged := h.arranged_covers hq hs
  have hperm := h.perm_folds hq hs
  obtain ⟨l, l', hsplit⟩ := List.append_of_mem hmem
  rw [hsplit] at harranged hperm
  have hwidth := (screenRange_of_split harranged hperm).2
  rw [hrange, isPoint_eq_false]
  · show screenPoint _ _ _ < screenPoint _ _ _
    rw [hwidth]
    exact Or.inr ⟨rfl, Nat.lt_add_of_pos_right hfits.pos⟩
  · show screenPoint _ _ _ ≤ screenPoint _ _ _
    rw [hwidth]
    exact Or.inr ⟨rfl, Nat.le_add_right _ _⟩

/-- A sound state in which nothing is queued shows the cover of every folding. -/
theorem Sound.draws (h : s.Sound fun _ => none) (ht : s.Tracked []) (hq : s.Quiet) :
    s.editor.Draws s.covers where
  noLoneReturn := h.faithful.noLoneReturn
  arranged := ht.arranged_covers hq h.faithful
  markers := by
    rw [List.Nodup, List.pairwise_map]
    exact (ht.pairwise_covers hq h.faithful).imp fun hcc => hcc.1
  ranges := by
    intro c hc
    obtain ⟨id, f, hf, rfl⟩ := (ht.mem_covers_iff hq).1 hc
    exact (ht.coverOf_spec hq h.faithful hf).2.2
  folds := ht.perm_folds hq h.faithful
  decorations := by
    intro x hx
    obtain ⟨d, hx⟩ := Table.mem_values_iff.1 hx
    obtain ⟨id, p, hp, hmarker⟩ := h.faithful.decorations d x hx
    obtain ⟨f, hf, rfl⟩ := exists_live_of_parts hp
    obtain ⟨known, hfol⟩ := ht.follows id f hf
    -- what is drawn at the marker of a folding is its label
    have hlabel := ((hfol.drawn d x).1 ⟨hx, hmarker.symm.trans hfol.label.symm⟩).2
    refine ⟨s.coverOf f, (ht.mem_covers_iff hq).2 ⟨id, f, hf, rfl⟩, hmarker.symm, ?_⟩
    rw [hlabel]
    rfl
  painted := by
    intro c hc
    obtain ⟨id, f, hf, rfl⟩ := (ht.mem_covers_iff hq).1 hc
    obtain ⟨m, hm, -, hvisible | hcollapsed⟩ := ht.settled hq hf
    · obtain ⟨-, ⟨d, -, hd⟩, -⟩ := hvisible
      exact ⟨_, Table.mem_values_iff.2 ⟨d, hd⟩, rfl⟩
    · -- a folding that is wider than a point is not collapsed
      have hextent := ht.extent hq h.faithful hf hm
      rw [hcollapsed.1] at hextent
      exact absurd hextent (by simp)

/-! ## Making a folding -/

/-- With nothing queued, putting a request in place does nothing but that. -/
lemma installed_of_quiet (hq : s.Quiet) (request : FoldRequest) :
    s.installed request = { s with editor := (s.editor.install request).2.2 } := by
  rw [FoldedEditor.installed, process_of_quiet hq]

/-- The live foldings stand before a request, in the text and by their numbers. -/
def Precedes (s : FoldedEditor) (request : FoldRequest) : Prop :=
  ∀ id f m, s.live.get? id = some f → s.editor.markers.get? f.marker = some m →
    id < request.id ∧ m.range.stop ≤ request.range.start

/-- Processing does not bring a folding behind a request. -/
lemma Tracked.precedes_process (ht : s.Tracked []) (h : s.Precedes request) :
    s.process.Precedes request := by
  refine ht.process_induction (P := fun t => t.Precedes request) h (fun _ h => h) ?_
  intro t t' hstep h
  cases hstep with
  | idle => exact h
  | @relabel id f f' e _ hf _ hmarker _ _ _ hredraw =>
    intro j g m hg hm
    rw [Table.get?_insert] at hg
    rw [hredraw.markers] at hm
    split_ifs at hg with hj
    · rw [← Option.some.inj hg, hmarker] at hm
      rw [hj]
      exact h id f m hf hm
    · exact h j g m hg hm
  | @destroy id f hf _ hredraw =>
    intro j g m hg hm
    rw [get?_live_destroyFolding] at hg
    unfold FoldedEditor.destroyFolding at hm
    rw [hf] at hm
    have hm : (Table.erase _ f.marker).get? g.marker = some m := hm
    rw [Table.get?_erase, markers_destroyFolds, hredraw.markers] at hm
    split_ifs at hg hm
    exact h j g m hg hm

/-- The part of the folding that is being made. -/
def only (id : FoldingId) (p : Part) (j : FoldingId) : Option Part :=
  if j = id then some p else none

/-- With the parts of a new folding in place, the state is sound for it and the others. -/
lemma Sound.installed (h : s.Sound fun _ => none) (ht : s.Tracked []) (hq : s.Quiet)
    (hready : request.Ready s.editor.text) (hid : s.live.get? request.id = none)
    (hbefore : s.Precedes request)
    (hwidth : request.preview.length ≤ (s.editor.text.slice request.range).visualLength) :
    (s.installed request).Sound (only request.id (s.editor.newPart request)) := by
  have hnone : s.parts (fun _ => none) request.id = none := by
    rw [parts, hid]
    rfl
  have hkept : (s.editor.install request).2.2.Kept := (ht.install request).tidy.toKept
  have hnew := h.faithful.install ht.tidy.toKept hkept hready hwidth hnone <| by
    intro j p m hp hm _
    obtain ⟨f, hf, rfl⟩ := exists_live_of_parts hp
    exact hbefore j f m hf hm
  have hparts : s.parts (only request.id (s.editor.newPart request)) =
      fun j => if j = request.id then some (s.editor.newPart request)
        else s.parts (fun _ => none) j := by
    funext j
    rw [parts, parts, only]
    split_ifs with hj
    · rw [hj, hid]
      rfl
    · rfl
  rw [installed_of_quiet hq]
  refine ⟨?_, ?_, h.wide⟩
  · rw [← hparts] at hnew
    exact hnew
  · intro j g hg
    rw [only, if_neg]
    intro hj
    rw [hj, show s.live.get? request.id = none from hid] at hg
    exact absurd hg (by simp)

/-- What the state is once a folding has been adopted. -/
lemma Tracked.adopt_spec (ht : s.Tracked []) (request : FoldRequest) {k : MarkerId}
    (folds : PartialFold) {label : Label} (hdrawn : label.DrawnIn s.editor) (hlabel : label.marker = k) :
    ∃ f, (s.adopt request k folds label).2.live = s.live.insert request.id f ∧
      s.editor.Redraws (s.adopt request k folds label).2.editor k ∧
      f.part = ⟨k, folds.folds, label.text⟩ ∧
      f.initialScreen =
        (s.editor.markerScreenRange? k).getD (s.editor.screenRange request.range) := by
  unfold FoldedEditor.adopt
  dsimp only
  generalize (s.editor.markerRange? k).any _ = underCursor
  obtain ⟨hredraw, -, -, -, -, htext⟩ := Label.styled_spec hdrawn ht.tidy underCursor
  rw [hlabel] at hredraw
  refine ⟨_, rfl, hredraw, ?_, rfl⟩
  rw [Folding.part, htext]

/-- From `u`, where the parts of a new folding are in place and nothing is queued, registering the
folding leads to `s'`. -/
structure Registers (u s' : FoldedEditor) (request : FoldRequest) (f : Folding) : Prop where
  sound : u.Sound (only request.id f.part)
  free : u.live.get? request.id = none
  live : s'.live = u.live.insert request.id f
  redraws : u.editor.Redraws s'.editor f.marker
  marker : u.editor.markers.get? f.marker = some ⟨request.range, true⟩
  screen : f.initialScreen = u.editor.screenRange request.range

/-- Making a folding ends with registering it; what happens before keeps the text and the order. -/
lemma Sound.registers (h : s.Sound fun _ => none) (ht : s.Tracked []) (hq : s.Quiet)
    (hready : request.Ready s.editor.text) (hid : s.live.get? request.id = none)
    (hbefore : s.Precedes request) (hc : s.createFolding request = .ok (info, s')) :
    ∃ u f, Registers u s' request f ∧ u.editor.text = s.editor.text ∧
      ∀ later, s.Precedes later → u.Precedes later := by
  obtain ⟨hwidth, hadopt⟩ := createFolding_ok hc
  rw [process_of_quiet hq] at hwidth hadopt
  have hclip : s.editor.clipRange request.range = request.range :=
    Editor.clipRange_eq hready.start hready.stop (le_of_lt hready.lt)
  rw [hclip] at hwidth
  have hsound := h.installed ht hq hready hid hbefore hwidth
  have hinstalled : (s.installed request).Tracked [] := ht.process.install request
  obtain ⟨hmarker, hdrawn, hlabel, -, htext⟩ := ht.install_spec request
  rw [hclip] at hmarker
  have heditor : (s.installed request).editor = (s.editor.install request).2.2 := by
    rw [installed_of_quiet hq]
  have hlive : (s.installed request).live = s.live := by
    rw [installed_of_quiet hq]
  -- the marker of the new folding belongs to none of the others
  have hframe := hinstalled.frame_process
  have howners : (s.installed request).owners.get? s.editor.nextId = none := by
    rw [installed_of_quiet hq]
    exact ht.owners_nextId
  have hkept : (s.installed request).process.editor.markers.get? s.editor.nextId =
      some ⟨request.range, true⟩ := by
    rw [hframe.markers _ howners, heditor]
    exact hmarker
  have hstill : (s.editor.install request).2.1.DrawnIn (s.installed request).process.editor := by
    refine hdrawn.congr fun d x hx => ?_
    rw [hframe.decorations _ howners d x (hx.trans hlabel), heditor]
  obtain ⟨f, hinsert, hredraw, hpart, hscreen⟩ :=
    hinstalled.process.adopt_spec request (s.editor.install request).1 hstill hlabel
  rw [hadopt] at hinsert hredraw
  have hfm : f.marker = s.editor.nextId := congrArg Part.marker hpart
  have hnew : f.part = s.editor.newPart request := by
    rw [hpart, htext]
    rfl
  refine ⟨(s.installed request).process, f, ⟨?_, ?_, hinsert, hfm ▸ hredraw, hfm ▸ hkept, ?_⟩, ?_, ?_⟩
  · rw [hnew]
    exact hsound.process hinstalled
  · apply hframe.fresh
    rw [hlive]
    exact hid
  · rw [hscreen, Editor.markerScreenRange?, Editor.markerRange?, hkept]
    rfl
  · rw [hinstalled.text_process, heditor]
    exact (Editor.install_spec ht.tidy.toKept hready hwidth).1
  · intro later hlater
    apply hinstalled.precedes_process
    intro j g m hg hm
    rw [hlive] at hg
    have hold := h.faithful.get?_install ht.tidy.toKept hready hwidth (parts_of_live hg)
    rw [heditor, show g.marker = g.part.marker from rfl, hold] at hm
    exact hlater j g m hg hm

/-- Making a folding after the others keeps the state sound. -/
theorem Sound.createFolding (h : s.Sound fun _ => none) (ht : s.Tracked []) (hq : s.Quiet)
    (hready : request.Ready s.editor.text) (hid : s.live.get? request.id = none)
    (hbefore : s.Precedes request) (hc : s.createFolding request = .ok (info, s')) :
    s'.Sound (fun _ => none) ∧ s'.editor.text = s.editor.text ∧
      ∀ later, s.Precedes later → request.id < later.id →
        request.range.stop ≤ later.range.start → s'.Precedes later := by
  obtain ⟨ht', hq'⟩ := ht.createFolding hid hc
  obtain ⟨u, f, ⟨hu, hfree, hlive, hredraw, hmarker, hscreen⟩, htext, hlater⟩ :=
    h.registers ht hq hready hid hbefore hc
  have hget : ∀ j, s'.live.get? j = if j = request.id then some f else u.live.get? j := by
    intro j
    rw [hlive, Table.get?_insert]
  have hparts : s'.parts (fun _ => none) = u.parts (only request.id f.part) := by
    funext j
    rw [parts, parts, hget, only]
    split_ifs with hj
    · rw [hj, hfree]
      rfl
    · rfl
  have hfaithful : s'.editor.Faithful (s'.parts fun _ => none) := by
    have hnew : u.parts (only request.id f.part) request.id = some f.part := by
      rw [parts, hfree, only, if_pos rfl]
      rfl
    rw [hparts]
    exact hu.faithful.redraw hnew hredraw
  have hself : s'.live.get? request.id = some f := by rw [hget, if_pos rfl]
  -- the extent was taken before the folding was registered, over the same text and folds
  have hwide : f.initialScreen.isPoint = false := by
    have hm : s'.editor.markers.get? f.marker = some ⟨request.range, true⟩ := by
      rw [hredraw.markers]
      exact hmarker
    have hextent := ht'.extent hq' hfaithful hself hm
    unfold Editor.screenRange at hextent
    rw [hredraw.text, hredraw.folds] at hextent
    rw [hscreen]
    exact hextent
  refine ⟨⟨hfaithful, fun _ _ _ => rfl, ?_⟩, hredraw.text.trans htext, ?_⟩
  · intro j g hg
    rw [hget] at hg
    split_ifs at hg
    · rw [← Option.some.inj hg]
      exact hwide
    · exact hu.wide j g hg
  · intro later hprecedes hids hranges j g m hg hm
    rw [hget] at hg
    rw [hredraw.markers] at hm
    split_ifs at hg with hj
    · rw [← Option.some.inj hg, hmarker] at hm
      rw [hj, ← Option.some.inj hm]
      exact ⟨hids, hranges⟩
    · exact hlater later hprecedes j g m hg hm

/-! ## Batches -/

variable {requests : List FoldRequest} {results : List FoldResult}

/-- Settings and highlighting are no part of what is drawn. -/
lemma Sound.configure (h : s.Sound extra) (settings : Settings) (highlighter : Highlighter) :
    ({ s with highlighter, editor := { s.editor with settings } } : FoldedEditor).Sound extra :=
  h.of_editor rfl (h.faithful.of_same rfl rfl rfl (Nat.le_refl _) h.faithful.decorations)

/-- The requests that are left in a batch can be served after the foldings made so far. -/
structure Serves (s : FoldedEditor) (requests : List FoldRequest) : Prop where
  tracked : s.Tracked []
  quiet : s.Quiet
  sound : s.Sound fun _ => none
  ready : ∀ q ∈ requests, q.Ready s.editor.text ∧ s.Precedes q
  ascending : FoldRequest.Ascending requests

/-- A batch goes on with the requests behind the one that has been granted. -/
lemma Serves.createFolding (h : s.Serves (request :: requests)) (hid : s.live.get? request.id = none)
    (hc : s.createFolding request = .ok (info, s')) : s'.Serves requests := by
  obtain ⟨hready, hbefore⟩ := h.ready request (by simp)
  obtain ⟨hlater, hascending⟩ := List.pairwise_cons.1 h.ascending
  obtain ⟨ht, hq⟩ := h.tracked.createFolding hid hc
  obtain ⟨hsound, htext, hprecedes⟩ :=
    h.sound.createFolding h.tracked h.quiet hready hid hbefore hc
  refine ⟨ht, hq, hsound, ?_, hascending⟩
  intro q hmem
  obtain ⟨hreadyq, hbeforeq⟩ := h.ready q (List.mem_cons_of_mem _ hmem)
  rw [htext]
  exact ⟨hreadyq, hprecedes q hbeforeq (hlater q hmem).1 (hlater q hmem).2⟩

/-- A batch of ascending requests after all foldings keeps the state sound. -/
theorem Sound.foldAll (h : s.Sound fun _ => none) (ht : s.Tracked [])
    (hready : ∀ q ∈ requests, q.Ready s.editor.text ∧ s.Precedes q)
    (hascending : FoldRequest.Ascending requests)
    (hc : s.foldAll requests = .ok (results, s')) : s'.Sound fun _ => none := by
  obtain ⟨maxLineLength, t, heach, rfl⟩ := foldAll_ok hc
  have hstart : s.batchStart.Serves requests := by
    refine ⟨ht.process.configure _ _, quiet_process _, (h.process ht).configure _ _, ?_, hascending⟩
    intro q hq
    obtain ⟨hreadyq, hbefore⟩ := hready q hq
    refine ⟨?_, ht.precedes_process hbefore⟩
    show q.Ready s.process.editor.text
    rw [ht.text_process]
    exact hreadyq
  have hend : t.Serves [] := by
    refine foldEach_induction (P := fun left t => t.Serves left) ?_ ?_ heach hstart
    · intro request rest t hserves
      exact ⟨hserves.tracked, hserves.quiet, hserves.sound,
        fun q hq => hserves.ready q (List.mem_cons_of_mem _ hq),
        (List.pairwise_cons.1 hserves.ascending).2⟩
    · intro request rest t t' info hserves hid _ hcreate
      exact hserves.createFolding hid hcreate
  exact hend.sound.configure _ _

/-! ## Taking all foldings down -/

lemma Sound.destroyFoldings (h : s.Sound extra) (ht : s.Tracked []) (ids : List FoldingId) :
    (ids.foldl FoldedEditor.destroyFolding s).Sound extra := by
  induction ids generalizing s with
  | nil => exact h
  | cons id ids ih =>
    obtain ⟨hnext, hstep⟩ := ht.destroyFolding_step id
    exact ih (hstep.sound h) hnext

lemma Sound.unfoldAll (h : s.Sound extra) (ht : s.Tracked []) : s.unfoldAll.Sound extra := by
  have hcleared : s.cleared.Sound extra :=
    (h.destroyFoldings ht s.live.keys).configure _ _
  exact hcleared.process ht.cleared

end FoldedEditor

/-! ## Runs -/

/-- What an edit may ask of the editor: to replace text or to move the cursor. Inserted text has no
lone carriage returns. -/
def EditorCall.Edits : EditorCall → Prop
  | .insert _ text => text.NoLoneReturn
  | .replace _ text => text.NoLoneReturn
  | .setCursor _ => True
  | _ => False

/-- Edits of the host leave the foldings sound and tracked. -/
lemma FoldedEditor.Sound.edits {s : FoldedEditor} (h : s.Sound fun _ => none) (ht : s.Tracked [])
    {calls : List EditorCall} (hcalls : ∀ call ∈ calls, call.Edits) :
    (s.host (·.runAll calls)).Sound (fun _ => none) ∧ (s.host (·.runAll calls)).Tracked [] := by
  induction calls generalizing s with
  | nil => exact ⟨h, ht⟩
  | cons call calls ih =>
    have hcall := hcalls call (by simp)
    -- what edits text or moves the cursor touches no marker or decoration by its number
    have hpermits : s.Permits call := by
      cases call <;> trivial
    have hfaithful : (call.run s.editor).Faithful (s.parts fun _ => none) := by
      cases call with
      | insert p text => exact h.faithful.replace ⟨p, p⟩ hcall
      | replace r text => exact h.faithful.replace r hcall
      | setCursor p => exact h.faithful.setCursor p
      | _ => exact hcall.elim
    have hsound : (s.host fun e => call.run e).Sound fun _ => none := h.of_editor rfl hfaithful
    exact ih hsound (ht.host call hpermits) fun c hc => hcalls c (List.mem_cons_of_mem _ hc)

namespace AutoFolder

variable {a : AutoFolder}

/-- The states that operations lead to from a text without lone carriage returns. -/
inductive Run : AutoFolder → Prop where
  | start (text : Text) (settings : Settings) :
      text.NoLoneReturn → Run (ofEditor { text, settings })
  | foldAll {a : AutoFolder} : Run a → Run a.foldAll.2
  | unfoldAll {a : AutoFolder} : Run a → Run a.unfoldAll
  | click {a : AutoFolder} (id : FoldingId) : Run a → Run (a.click id).2
  | edit {a : AutoFolder} {α : Type} (change : Editor → α × Editor) (calls : List EditorCall) :
      Run a → (∀ call ∈ calls, call.Edits) →
        (change a.folded.editor).2 = a.folded.editor.runAll calls → Run (a.edit change).2

/-- The foldings follow their markers, nothing is queued, and what is drawn belongs to them. -/
structure Settled (a : AutoFolder) : Prop where
  tracked : a.folded.Tracked []
  quiet : a.folded.Quiet
  sound : a.folded.Sound fun _ => none

/-- A folder is settled again after an edit. -/
lemma Settled.edit (h : a.Settled) {α : Type} (change : Editor → α × Editor)
    (calls : List EditorCall) (hcalls : ∀ call ∈ calls, call.Edits)
    (hchange : (change a.folded.editor).2 = a.folded.editor.runAll calls) :
    (a.edit change).2.Settled := by
  obtain ⟨hsound, htracked⟩ := h.sound.edits h.tracked hcalls
  have hfolded : (a.edit change).2.folded = (a.folded.host (·.runAll calls)).process := by
    show ({ a.folded with editor := (change a.folded.editor).2 } : FoldedEditor).process = _
    rw [hchange]
    rfl
  refine ⟨?_, ?_, ?_⟩
  · rw [hfolded]
    exact htracked.process
  · rw [hfolded]
    exact FoldedEditor.quiet_process _
  · rw [hfolded]
    exact hsound.process htracked

lemma Settled.unfoldAll (h : a.Settled) : a.unfoldAll.Settled :=
  ⟨h.tracked.unfoldAll.1, h.tracked.unfoldAll.2, h.sound.unfoldAll h.tracked⟩

/-- Folding the whole buffer starts without foldings, so its requests come after all of them. -/
lemma Settled.foldAll (h : a.Settled) : a.foldAll.2.Settled := by
  have hstart := h.unfoldAll
  unfold AutoFolder.foldAll
  dsimp only
  split
  · exact ⟨hstart.tracked, hstart.quiet, hstart.sound⟩
  · rename_i results folded hc
    obtain ⟨hready, hascending⟩ :=
      requestsFor_all a.nextId a.folded.unfoldAll.editor.text
    obtain ⟨htracked, hquiet⟩ := hstart.tracked.foldAll hc
    refine ⟨htracked, hquiet, hstart.sound.foldAll hstart.tracked ?_ hascending hc⟩
    intro q hq
    refine ⟨hready q hq, ?_⟩
    intro id f m hf
    rw [show a.unfoldAll.folded.live.get? id = none from a.folded.live_unfoldAll id] at hf
    exact absurd hf (by simp)

lemma settled_start {text : Text} (settings : Settings) (h : text.NoLoneReturn) :
    (ofEditor { text, settings }).Settled where
  tracked := (FoldedEditor.Reached.start text settings).tracked
  quiet := ⟨rfl, rfl⟩
  sound := by
    have hnone : ∀ id, (ofEditor { text, settings }).folded.parts (fun _ => none) id = none :=
      fun _ => rfl
    refine ⟨⟨h, ?_, ?_, ?_, ?_, ?_, ?_, ?_⟩, fun _ _ _ => rfl, ?_⟩
    all_goals
      intros
      simp_all [ofEditor]

/-- A folder is settled after every run. -/
theorem Run.settled (h : a.Run) : a.Settled := by
  induction h with
  | start text settings htext => exact settled_start settings htext
  | foldAll _ ih => exact ih.foldAll
  | unfoldAll _ ih => exact ih.unfoldAll
  | click id _ ih =>
    unfold AutoFolder.click
    split
    · exact ih
    · -- a click on a preview puts the cursor at the start of its range
      rename_i r _
      exact ih.edit (fun e => ((), e.setCursor r.start)) [.setCursor r.start]
        (by simp [EditorCall.Edits]) rfl
  | edit change calls _ hcalls hchange ih => exact ih.edit change calls hcalls hchange

/-- **What you see.** After every operation the lines on the screen are those of the buffer with the
range of each live folding replaced by its preview. The ranges stand one after the other. -/
theorem Run.paintedLines_eq (h : a.Run) :
    a.folded.covers.length = a.folded.live.size ∧
      (a.folded.covers.Pairwise fun c c' => c.range.stop ≤ c'.range.start) ∧
      a.folded.editor.paintedLines =
        (covered a.folded.editor.text .origin a.folded.editor.text.fullRange.stop
          a.folded.covers).lines := by
  obtain ⟨htracked, hquiet, hsound⟩ := h.settled
  refine ⟨?_, ?_, (hsound.draws htracked hquiet).paintedLines⟩
  · rw [htracked.covers_eq hquiet, List.length_map, Table.values, List.length_map]
    rfl
  · exact (htracked.pairwise_covers hquiet hsound.faithful).imp fun hcc => hcc.2

/-- Two foldings, one of them over two lines, that an inserted line has moved. -/
theorem paintedLines_eq_moved :
    let a := ((ofEditor
      { text := "x\r\n template<class T,\r\n class U>y template<class V=A>".toList }).foldAll.2.edit
        fun e => e.insert ⟨0, 1⟩ "z\n".toList).2
    a.Run ∧ a.folded.covers.length = 2 ∧
      a.folded.editor.paintedLines =
        (covered a.folded.editor.text .origin a.folded.editor.text.fullRange.stop
          a.folded.covers).lines ∧
      a.folded.editor.paintedLines =
        ["xz".toList, [], " template<T, U>y template<V = A>".toList] := by
  intro a
  have hrun : a.Run := by
    refine .edit _ [.insert ⟨0, 1⟩ "z\n".toList] (.foldAll (.start _ _ (by decide))) ?_ rfl
    intro call hcall
    rw [List.mem_singleton.1 hcall]
    show NoLoneReturn "z\n".toList
    decide
  obtain ⟨hsize, -, hlines⟩ := hrun.paintedLines_eq
  refine ⟨hrun, ?_, hlines, ?_⟩
  · rw [hsize]
    decide +kernel
  · decide +kernel

end AutoFolder

end TemplateFolding
